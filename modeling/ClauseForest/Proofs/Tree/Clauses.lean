/-
**Clauses of a tree over ground facts**

When the facts are about constants and the background is declared, the clauses of a tree are simple
programs: no test calls the target, so every proof ends, and whether an example satisfies a clause
is a question about joins of facts.  What is known of joins then holds of the clauses.  Fewer tests
at the end are satisfied by more examples.  And the order of the tests makes no difference to an
example without variables, as long as no test repeats a variable other than those of the target:
these have their values before the first test is looked at.

Main definitions:

* `Grower.OverFacts` — a tree is grown over facts about constants, and no test calls the target;
* `Grower.Avoids`, `Grower.TestsOthers` — a body, and tests, that do not call the target;
* `Grower.covers` — whether the leaf of a node applies to an example;
* `Term.RepeatsOnly` — a literal that repeats only certain variables.

Main results:

* `Grower.exists_overFacts` — trees of data sets with ground facts and a background are such trees;
* `Grower.OverFacts.satisfies_of_append` — tests at the end may be left out;
* `Grower.OverFacts.satisfies_perm` — **the order of tests without repetitions makes no
  difference**;
* `Grower.OverFacts.applies_leafOf`, `Grower.OverFacts.valueOf_ofLeaves` — every leaf, and every
  tree, gives an answer.
-/

import ClauseForest.Proofs.Dataset.Background
import ClauseForest.Proofs.Prover.FactBase
import ClauseForest.Proofs.Tree.Answering
import ClauseForest.Proofs.Tree.Routing

set_option relaxedAutoImplicit false
set_option autoImplicit false

namespace ClauseForest

/-- A literal repeats no variables but some. -/
def Term.RepeatsOnly (t : Term) (vars : List String) : Prop :=
  ∀ var ∈ t.args, isVariable var = true → var ∉ vars → t.args.count var ≤ 1

instance (t : Term) (vars : List String) : Decidable (t.RepeatsOnly vars) := by
  unfold Term.RepeatsOnly
  infer_instance

/-- Once some variables have values, a literal that repeats no others is distinct. -/
theorem Term.RepeatsOnly.distinct {t : Term} {vars : List String} (h : t.RepeatsOnly vars)
    {b : Bindings} (hvars : ∀ var ∈ vars, (b.valueOf var).isSome) : t.Distinct b := by
  intro var hnone
  by_cases hmem : var ∈ t.args
  · refine h var hmem (Bindings.isVariable_of_valueOf_eq_none hnone) fun hvar => ?_
    have hsome := hvars var hvar
    rw [hnone] at hsome
    cases hsome
  · rw [List.count_eq_zero_of_not_mem hmem]
    exact Nat.zero_le 1

/-- A query without variables gives a value to every argument of the head that it matches. -/
theorem isSome_valueOf_of_unify {query head : Term} (hquery : query.IsGround)
    (h : (unify query .empty head .empty).agrees = true) :
    ∀ var ∈ head.args, ((unify query .empty head .empty).bindings.valueOf var).isSome := by
  intro var hvar
  have harity : head.arity = query.arity := congrArg Prod.snd (key_eq_of_agrees h)
  have hslots : (query.args.zip head.args).map Prod.snd = head.args :=
    List.map_snd_zip (Nat.le_of_eq harity)
  rw [← hslots] at hvar
  obtain ⟨pair, hpair, rfl⟩ := List.mem_map.1 hvar
  have hground := hquery pair.1 (List.of_mem_zip hpair).1
  have hvalue := valueOf_of_unify h pair hpair pair.1
    (Bindings.valueOf_of_constant _ hground)
  simp [hvalue]

namespace Grower

variable {g : Grower} {rules : List Rule}

/-- A tree is grown over facts about constants, without a limit, and no test calls the target. -/
structure OverFacts (g : Grower) (rules : List Rule) : Prop where
  facts : g.facts = .ofList rules
  areFacts : AreFacts rules
  limit : g.limit = none
  predicate_ne : ∀ node tests, g.testsAt node = .ok tests → ∀ text ∈ tests,
    ∀ test, Term.parse text = .ok test → test.predicate ≠ g.target.predicate

/-- Trees of data sets with ground facts and a background are grown over facts. -/
theorem exists_overFacts {d : Dataset} {config : TreeConfig} (hg : d.grower config = .ok g)
    (hfacts : d.HasFacts) (hbackground : d.HasBackground) (hlimit : config.stepLimit = none) :
    ∃ rules, g.OverFacts rules := by
  obtain ⟨rules, target, hrules, htarget, rfl⟩ := Dataset.grower_eq_ok_iff.1 hg
  refine ⟨rules, rfl, fun rule hrule => ?_, hlimit, ?_⟩
  · obtain ⟨text, htext, hparse⟩ := exists_of_mem_mapM hrules hrule
    exact hfacts text htext rule hparse
  · intro node tests htests text htext test htest
    exact hbackground.predicate_ne htarget htests htext htest

/-- No literal of a body calls the target. -/
def Avoids (g : Grower) (body : List Term) : Prop :=
  ∀ literal ∈ body, literal.predicate ≠ g.target.predicate

/-! ### Tests that do not call the target -/

/-- No test at any node calls the target. -/
def TestsOthers (g : Grower) : Prop :=
  ∀ node tests, g.testsAt node = .ok tests → ∀ text ∈ tests,
    ∀ test, Term.parse text = .ok test → test.predicate ≠ g.target.predicate

theorem OverFacts.testsOthers (h : g.OverFacts rules) : g.TestsOthers := h.predicate_ne

theorem TestsOthers.avoids_cons (h : g.TestsOthers) {node : Node} {s : Split} (hs : g.Splits node s)
    (hnode : g.Avoids node.lefts) : g.Avoids (s.test :: node.lefts) := by
  obtain ⟨tests, htests, text, htext, htest⟩ := hs.test
  intro literal hliteral
  rcases List.mem_cons.1 hliteral with rfl | hliteral
  · exact h node tests htests text htext _ htest
  · exact hnode literal hliteral

theorem TestsOthers.avoids_child (h : g.TestsOthers) {node child : Node} {s : Split}
    (hs : g.Splits node s) (hchild : child ∈ children node s) (hnode : g.Avoids node.lefts) :
    g.Avoids child.lefts := by
  rcases mem_children_iff.1 hchild with ⟨-, rfl⟩ | ⟨-, rfl⟩
  · exact h.avoids_cons hs hnode
  · exact hnode

theorem TestsOthers.avoids_of_grows (h : g.TestsOthers) {k : Nat} {nodes leaves : List Node}
    (hgrows : g.Grows k nodes leaves) (hnodes : ∀ node ∈ nodes, g.Avoids node.lefts) :
    ∀ leaf ∈ leaves, g.Avoids leaf.lefts :=
  hgrows.forall_leaves (P := fun _ node => g.Avoids node.lefts)
    (fun _ _ _ _ hnode hs hchild => h.avoids_child hs hchild hnode) (fun _ _ => id) hnodes

/-! ### Clauses as joins -/

/-- Whether the leaf of a node applies to an example: it has no tests, or they are satisfied in the
order in which the leaf records them. -/
def covers (g : Grower) (node : Node) (text : String) : Bool :=
  node.lefts.isEmpty || g.satisfies node.lefts text

theorem satisfies_eq_true_iff {body : List Term} {text : String} {query : Term}
    (h : Term.parse text = .ok query) : g.satisfies body text = true ↔
      Session.prove ⟨g.facts, some ⟨g.target, body⟩, g.limit⟩ query = .ok true := by
  rw [satisfies_of_parse h, Session.proves]
  split
  · rename_i answer hanswer
    rw [hanswer, Except.ok.injEq]
  · rename_i e herror
    rw [herror]
    exact ⟨nofun, nofun⟩

namespace OverFacts

/-- Whether a query satisfies a clause is a question about joins of facts. -/
theorem prove_eq (h : g.OverFacts rules) {body : List Term} (hbody : g.Avoids body) (query : Term)
    [Decidable (Holds rules ⟨g.target, body⟩ query)] :
    Session.prove ⟨g.facts, some ⟨g.target, body⟩, g.limit⟩ query =
      .ok (decide (Holds rules ⟨g.target, body⟩ query)) := by
  rw [h.facts, h.limit]
  refine Session.prove_eq h.areFacts (fun literal hliteral hkey => ?_) query
  exact hbody literal hliteral (congrArg Prod.fst hkey)

theorem exists_prove (h : g.OverFacts rules) {body : List Term} (hbody : g.Avoids body)
    (query : Term) :
    ∃ answer, Session.prove ⟨g.facts, some ⟨g.target, body⟩, g.limit⟩ query = .ok answer := by
  classical exact ⟨_, h.prove_eq hbody query⟩

theorem satisfies_iff (h : g.OverFacts rules) {body : List Term} (hbody : g.Avoids body)
    {text : String} {query : Term} (hquery : Term.parse text = .ok query) :
    g.satisfies body text = true ↔ Holds rules ⟨g.target, body⟩ query := by
  classical
  rw [satisfies_eq_true_iff hquery, h.prove_eq hbody, Except.ok.injEq, decide_eq_true_iff]

theorem exists_of_satisfies {body : List Term} {text : String}
    (h : g.satisfies body text = true) : ∃ query, Term.parse text = .ok query := by
  unfold satisfies at h
  split at h
  · rename_i query hquery
    exact ⟨query, hquery⟩
  · cases h

/-- Tests at the end may be left out. -/
theorem satisfies_of_append (h : g.OverFacts rules) {body more : List Term}
    (hbody : g.Avoids (body ++ more)) {text : String}
    (hsat : g.satisfies (body ++ more) text = true) : g.satisfies body text = true := by
  obtain ⟨query, hquery⟩ := exists_of_satisfies hsat
  have hfront : g.Avoids body :=
    fun literal hliteral => hbody literal (List.mem_append_left _ hliteral)
  rw [h.satisfies_iff hbody hquery] at hsat
  rw [h.satisfies_iff hfront hquery]
  exact hsat.imp id fun ⟨hagrees, hjoins⟩ => ⟨hagrees, hjoins.of_append⟩

/-- The order of tests without repetitions makes no difference. -/
theorem satisfies_perm (h : g.OverFacts rules) {body other : List Term} (hperm : body.Perm other)
    (hbody : g.Avoids body) (hrepeats : ∀ literal ∈ body, literal.RepeatsOnly g.target.args)
    {text : String} {query : Term} (hquery : Term.parse text = .ok query)
    (hground : query.IsGround) :
    g.satisfies body text = g.satisfies other text := by
  have hother : g.Avoids other := fun literal hliteral => hbody literal (hperm.mem_iff.2 hliteral)
  have hiff : Holds rules ⟨g.target, body⟩ query ↔ Holds rules ⟨g.target, other⟩ query := by
    refine or_congr Iff.rfl (and_congr_right fun hagrees => ?_)
    have hbindings := isGround_unify Bindings.isGround_empty query g.target Bindings.isGround_empty
    refine joins_perm h.areFacts hperm hbindings fun literal hliteral => ?_
    exact (hrepeats literal hliteral).distinct (isSome_valueOf_of_unify hground hagrees)
  rw [Bool.eq_iff_iff, h.satisfies_iff hbody hquery, h.satisfies_iff hother hquery]
  exact hiff

/-! ### Leaves -/

/-- No test on the way to a leaf calls the target. -/
theorem avoids_of_grows (h : g.OverFacts rules) {k : Nat} {nodes leaves : List Node}
    (hgrows : g.Grows k nodes leaves) (hnodes : ∀ node ∈ nodes, g.Avoids node.lefts) :
    ∀ leaf ∈ leaves, g.Avoids leaf.lefts := h.testsOthers.avoids_of_grows hgrows hnodes

/-- A leaf applies to the examples that it covers. -/
theorem applies_leafOf (h : g.OverFacts rules) {leaf : Node} (hleaf : g.Avoids leaf.lefts)
    {text : String} {query : Term} (hquery : Term.parse text = .ok query) :
    LearnedTree.applies g.facts query none (g.leafOf leaf) = .ok (g.covers leaf text) := by
  unfold LearnedTree.applies covers
  have hbody : (g.leafOf leaf).isUnconditional = leaf.lefts.isEmpty := rfl
  rw [hbody]
  cases hempty : leaf.lefts.isEmpty with
  | true => rfl
  | false =>
      obtain ⟨answer, hanswer⟩ := h.exists_prove hleaf query
      rw [satisfies_of_parse hquery, Session.proves_of_prove hanswer]
      rw [h.limit] at hanswer
      rw [if_neg (by simp), Bool.false_or]
      exact hanswer

/-- The value of a tree is that of the leaf that answers. -/
theorem valueOf_ofLeaves (h : g.OverFacts rules) {leaves : List Node}
    (hleaves : ∀ leaf ∈ leaves, g.Avoids leaf.lefts) {text : String} {query : Term}
    (hquery : Term.parse text = .ok query) :
    (LearnedTree.ofLeaves (leaves.map g.leafOf)).valueOf g.facts query none =
      .ok (((LearnedTree.ofLeaves (leaves.map g.leafOf)).answering g.facts query none).map
        Leaf.value) := by
  refine LearnedTree.valueOf_eq fun leaf hleaf => ?_
  obtain ⟨node, hnode, rfl⟩ := List.mem_map.1 (LearnedTree.mem_ofLeaves.1 hleaf)
  exact ⟨_, h.applies_leafOf (hleaves node hnode) hquery⟩

end OverFacts

end Grower

end ClauseForest
