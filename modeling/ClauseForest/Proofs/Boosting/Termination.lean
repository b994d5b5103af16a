/-
**Boosting without a limit**

A boosting run learns trees one after another, and after each it evaluates all trees on all examples.
Facts without conditions call nothing and no tree calls its target, so every proof on the way ends
although nothing limits it: those that choose the tests of a tree, those that give the examples their
gradients, and those that predict examples with the trees later, over the same facts or over others.
Whatever the depth of the trees, their number and the loss, a run can only fail at a malformed text.

Advice is left out, for its clauses are those of an expert and may call themselves.

Main definitions:

* `Ensemble.OverBare` — trees that do not call their targets, over facts without conditions.

Main results:

* `Ensemble.OverBare.settles_sum` — the sum of an example settles;
* `Dataset.settles_updateGradients`, `Dataset.settles_infer` — so do gradients and predictions;
* `Dataset.settles_learnMore` — so do the rounds of a run;
* `exists_prove_and_settles_learn` — **proofs from rules without a circle end, and so do all proofs of
  a boosting run**.
-/

import ClauseForest.Proofs.Boosting.Failure
import ClauseForest.Proofs.Dataset.History
import ClauseForest.Proofs.Tree.Coverage
import ClauseForest.Proofs.Tree.Settling

set_option relaxedAutoImplicit false
set_option autoImplicit false

namespace ClauseForest

/-! ### Ensembles -/

namespace Ensemble

/-- The trees of an ensemble do not call their targets, and the facts have no conditions. -/
structure OverBare (e : Ensemble) : Prop where
  facts : e.facts.IsBare
  limit : e.limit = none
  trees : ∀ tree ∈ e.trees, tree.CallsOthers

/-- The sum of the values of an example settles. -/
theorem OverBare.settles_sum {e : Ensemble} (h : e.OverBare) (text : String) :
    Settles (e.sum text) fun _ => True := by
  refine settles_true_iff.2 (failsOnly_sum (failsOnly_isMalformed_ofSyntax _) ?_)
  intro tree htree query
  rw [h.limit]
  exact settles_true_iff.1 ((h.trees tree htree).settles_valueOf h.facts query)

end Ensemble

/-! ### Data sets -/

namespace Dataset

variable {d : Dataset} {trees : List LearnedTree}

theorem SameProblem.hasBareFacts {d' : Dataset} (h : d.SameProblem d') (hd : d.HasBareFacts) :
    d'.HasBareFacts := by
  unfold HasBareFacts
  rw [h.facts]
  exact hd

/-- Trees that do not call their targets settle over the facts of a data set. -/
theorem HasBareFacts.settles_sum (hfacts : d.HasBareFacts)
    (htrees : ∀ tree ∈ trees, tree.CallsOthers) {base : RuleBase}
    (hbase : RuleBase.parse d.facts = .ok base) (text : String) :
    Settles (Ensemble.sum ⟨trees, base, none⟩ text) fun _ => True := by
  have he : Ensemble.OverBare ⟨trees, base, none⟩ :=
    ⟨RuleBase.isBare_of_parse hfacts hbase, rfl, htrees⟩
  exact he.settles_sum text

/-- The update of the gradients settles, and keeps the problem. -/
theorem settles_updateGradients (hfacts : d.HasBareFacts) (hadvice : d.usesAdvice = false)
    (htrees : ∀ tree ∈ trees, tree.CallsOthers) (loss : Loss) :
    Settles (d.updateGradients trees loss none) d.SameProblem := by
  refine settles_iff.2 ⟨failsOnly_updateGradients (failsOnly_isMalformed_ofSyntax _) ?_,
    fun _ => sameProblem_of_updateGradients⟩
  intro base hbase text _
  have hsum := settles_true_iff.1 (hfacts.settles_sum htrees hbase text)
  exact Ensemble.failsOnly_gradient hsum (fun huses => absurd huses (by simp [hadvice])) loss

/-- The predictions settle. -/
theorem settles_infer (hfacts : d.HasBareFacts) (htrees : ∀ tree ∈ trees, tree.CallsOthers) :
    Settles (d.infer trees none) fun _ => True := by
  refine settles_true_iff.2 (failsOnly_infer (failsOnly_isMalformed_ofSyntax _) ?_)
  exact fun base hbase text _ => settles_true_iff.1 (hfacts.settles_sum htrees hbase text)

variable {config : BoostConfig}

/-- A round settles.  It adds a tree that does not call its target, and keeps the problem. -/
theorem settles_boost (hfacts : d.HasBareFacts) (hbackground : d.HasBackground)
    (hadvice : d.usesAdvice = false) (hlimit : config.tree.stepLimit = none)
    (htrees : ∀ tree ∈ trees, tree.CallsOthers) :
    Settles (d.boost config trees) fun out =>
      (∀ tree ∈ out.1, tree.CallsOthers) ∧ d.SameProblem out.2 := by
  obtain ⟨hfails, hcalls⟩ :=
    settles_iff.1 (settles_learnTree hfacts hbackground hlimit)
  have hmore : ∀ tree, d.learnTree config.tree = .ok tree →
      ∀ other ∈ trees ++ [tree], other.CallsOthers := by
    intro tree htree other hother
    rcases List.mem_append.1 hother with hother | hother
    · exact htrees other hother
    · exact List.mem_singleton.1 hother ▸ hcalls tree htree
  refine settles_iff.2 ⟨failsOnly_boost hfails fun tree htree => ?_, fun out hout => ?_⟩
  · rw [hlimit]
    exact (settles_iff.1 (settles_updateGradients hfacts hadvice (hmore tree htree) config.loss)).1
  · obtain ⟨tree, htree, hout, hupdate⟩ := boost_eq_ok_iff.1 hout
    rw [hout]
    exact ⟨hmore tree htree, sameProblem_of_updateGradients hupdate⟩

/-- The rounds of a run settle, and keep the problem. -/
theorem settles_learnMore (hfacts : d.HasBareFacts) (hbackground : d.HasBackground)
    (hadvice : d.usesAdvice = false) (hlimit : config.tree.stepLimit = none) (rounds : Nat)
    (htrees : ∀ tree ∈ trees, tree.CallsOthers) :
    Settles (learnMore config rounds trees d).1 (fun found => ∀ tree ∈ found, tree.CallsOthers) ∧
      d.SameProblem (learnMore config rounds trees d).2 := by
  have hboost : ∀ trees d', (∀ tree ∈ trees, tree.CallsOthers) ∧ d.SameProblem d' →
      Settles (d'.boost config trees) fun out =>
        (∀ tree ∈ out.1, tree.CallsOthers) ∧ d'.SameProblem out.2 :=
    fun trees d' h => settles_boost (h.2.hasBareFacts hfacts) (h.2.hasBackground hbackground)
      (h.2.usesAdvice.trans hadvice) hlimit h.1
  obtain ⟨hfails, found, ⟨hfound, hsame⟩, heq⟩ := failsOnly_learnMore
    (P := fun trees d' => (∀ tree ∈ trees, tree.CallsOthers) ∧ d.SameProblem d')
    (fun trees d' h => (settles_iff.1 (hboost trees d' h)).1)
    (fun trees d' out h hout =>
      ((settles_iff.1 (hboost trees d' h)).2 out hout).imp_right h.2.trans)
    rounds ⟨htrees, .refl d⟩
  exact ⟨settles_iff.2 ⟨hfails, fun learned hlearned => heq learned hlearned ▸ hfound⟩, hsame⟩

end Dataset

/-! ### The end of all proofs -/

/-- **Proofs end.**  A session whose rules call each other without a circle gives one and the same
answer to a query under every limit that is large enough, and without a limit.  Consequently a boosting
run over facts without conditions, with a declared background and without advice settles without a
limit, and so do the predictions and the gradients of its trees: on the data set that the run leaves
behind, on the one that it started from, and on any other whose facts have no conditions. -/
theorem exists_prove_and_settles_learn :
    (∀ (rules : List Rule) (clause : Option Rule) (query : Term),
      IsAcyclic (rules ++ clause.toList) →
      ∃ bound answer,
        (∀ n, bound ≤ n → Session.prove ⟨.ofList rules, clause, some n⟩ query = .ok answer) ∧
          Session.prove ⟨.ofList rules, clause, none⟩ query = .ok answer) ∧
    ∀ (d : Dataset) (config : BoostConfig), d.HasBareFacts → d.HasBackground →
      d.usesAdvice = false → config.tree.stepLimit = none →
      d.SameProblem (d.learn config).2 ∧
      Settles (d.learn config).1 fun trees =>
        ∀ e : Dataset, d.SameProblem e ∨ (e.HasBareFacts ∧ e.usesAdvice = false) →
          Settles (e.infer trees none) (fun _ => True) ∧
          ∀ loss, Settles (e.updateGradients trees loss none) fun _ => True := by
  refine ⟨fun rules clause query h => Session.exists_prove_of_isAcyclic rules clause h query, ?_⟩
  intro d config hfacts hbackground hadvice hlimit
  have hnone : ∀ tree ∈ ([] : List LearnedTree), tree.CallsOthers := nofun
  obtain ⟨hsettles, hsame⟩ :=
    Dataset.settles_learnMore hfacts hbackground hadvice hlimit config.trees hnone
  refine ⟨hsame, hsettles.mono fun trees _ htrees e he => ?_⟩
  obtain ⟨hefacts, headvice⟩ : e.HasBareFacts ∧ e.usesAdvice = false := by
    rcases he with he | he
    · exact ⟨he.hasBareFacts hfacts, he.usesAdvice.trans hadvice⟩
    · exact he
  refine ⟨Dataset.settles_infer hefacts htrees, fun loss => ?_⟩
  exact (Dataset.settles_updateGradients hefacts headvice htrees loss).mono fun _ _ _ => trivial

/-- Two parents in a row. -/
def parentRules : List Rule := [.fact ⟨"parent", ["ann", "bob"]⟩, .fact ⟨"parent", ["bob", "cid"]⟩]

/-- Grandparents are parents of parents. -/
def grandparentRule : Rule :=
  ⟨⟨"grandparent", ["X", "Z"]⟩, [⟨"parent", ["X", "Y"]⟩, ⟨"parent", ["Y", "Z"]⟩]⟩

/-- A problem in which everybody is a friend of Bob. -/
def openData : Dataset :=
  Dataset.cancerData ["friends(X,bob)"] ["cancer(ann)"] ["cancer(bob)"]

theorem exists_prove_and_settles_learn_friends :
    (IsAcyclic (parentRules ++ (some grandparentRule).toList) ∧ ∃ bound answer,
      (∀ n, bound ≤ n → Session.prove ⟨.ofList parentRules, some grandparentRule, some n⟩
        ⟨"grandparent", ["ann", "cid"]⟩ = .ok answer) ∧
        Session.prove ⟨.ofList parentRules, some grandparentRule, none⟩
          ⟨"grandparent", ["ann", "cid"]⟩ = .ok answer) ∧
    (openData.HasBareFacts ∧ openData.HasBackground ∧ openData.usesAdvice = false ∧
      BoostConfig.default.tree.stepLimit = none) ∧
    openData.SameProblem (openData.learn .default).2 ∧
      Settles (openData.learn .default).1 fun trees =>
        ∀ e : Dataset, openData.SameProblem e ∨ (e.HasBareFacts ∧ e.usesAdvice = false) →
          Settles (e.infer trees none) (fun _ => True) ∧
          ∀ loss, Settles (e.updateGradients trees loss none) fun _ => True := by
  have hacyclic : IsAcyclic (parentRules ++ (some grandparentRule).toList) :=
    isAcyclic_iff_exists_rank.2 ⟨fun key => if key.1 = "parent" then 0 else 1, by decide⟩
  have hrules : openData.facts.mapM Rule.parse = .ok [.fact ⟨"friends", ["X", "bob"]⟩] := by
    decide +kernel
  have hfacts : openData.HasBareFacts := Dataset.hasBareFacts_of_mapM hrules (by decide)
  have hbackground : openData.HasBackground := Dataset.hasBackground_cancerData _ _ _
  exact ⟨⟨hacyclic, exists_prove_and_settles_learn.1 parentRules (some grandparentRule) _ hacyclic⟩,
    ⟨hfacts, hbackground, rfl, rfl⟩,
    exists_prove_and_settles_learn.2 openData .default hfacts hbackground rfl rfl⟩

end ClauseForest
