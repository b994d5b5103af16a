/-
**How boosting can fail**

An ensemble reads an example and asks every tree for its value; for a gradient it may also look at the
advice.  An update of the gradients and a round of predictions do this for all examples, after the facts
were read.  A boosting run alternates between learning a tree and an update.  All of it fails for certain
reasons only if its parts do.

Main results:

* `Ensemble.failsOnly_sum`, `Ensemble.failsOnly_gradient` — the sum and the gradient of an example;
* `Dataset.failsOnly_updateGradients`, `Dataset.failsOnly_infer` — updates and predictions;
* `Dataset.failsOnly_learnMore` — **a boosting run fails only where one of its rounds fails**.
-/

import ClauseForest.Boosting.Training
import ClauseForest.Proofs.Tree.Failure

set_option relaxedAutoImplicit false
set_option autoImplicit false

namespace ClauseForest

variable {reasons : ProofError → Prop} {d : Dataset} {trees : List LearnedTree} {limit : Option Nat}

/-! ### Ensembles -/

namespace Ensemble

variable {e : Ensemble} {text : String}

theorem failsOnly_addValues {query : Term} (htrees : ∀ tree ∈ trees,
      FailsOnly reasons (tree.valueOf e.facts query e.limit)) (sum : Float) :
    FailsOnly reasons (e.addValues query sum trees) := by
  induction trees generalizing sum with
  | nil => exact failsOnly_ok _
  | cons tree trees ih =>
      have hrest := fun other hother => htrees other (List.mem_cons_of_mem tree hother)
      refine (htrees tree (by simp)).bind fun value _ => ?_
      cases value with
      | none => exact ih hrest sum
      | some value => exact ih hrest (sum + value)

/-- The sum of an example fails only where the example is read or a tree is asked. -/
theorem failsOnly_sum (htext : FailsOnly reasons (ProofError.ofSyntax (Term.parse text)))
    (htrees : ∀ tree ∈ e.trees, ∀ query, FailsOnly reasons (tree.valueOf e.facts query e.limit)) :
    FailsOnly reasons (e.sum text) :=
  htext.bind fun query _ => failsOnly_addValues (fun tree htree => htrees tree htree query) 0.0

theorem failsOnly_addVotes {query : Term} {advice : List Advice}
    (hread : ∀ piece ∈ advice, FailsOnly reasons (ProofError.ofSyntax (Rule.parse piece.clause)))
    (hprove : ∀ clause, FailsOnly reasons (Session.prove ⟨e.facts, some clause, e.limit⟩ query))
    (sum : Int) : FailsOnly reasons (e.addVotes query sum advice) := by
  induction advice generalizing sum with
  | nil => exact failsOnly_ok _
  | cons piece advice ih =>
      have hrest := fun other hother => hread other (List.mem_cons_of_mem piece hother)
      refine (hread piece (by simp)).bind fun clause _ => (hprove clause).bind fun holds _ => ?_
      cases holds with
      | true => exact ih hrest _
      | false => exact ih hrest sum

/-- The gradient of an example fails only where its sum is formed or the advice is looked at. -/
theorem failsOnly_gradient (hsum : FailsOnly reasons (e.sum text))
    (hadvice : d.usesAdvice = true → FailsOnly reasons (e.advice d text)) (loss : Loss) :
    FailsOnly reasons (e.gradient d loss text) := by
  have hlabel : ∀ sum, FailsOnly reasons (e.labelGradient d text sum) := by
    intro sum
    unfold labelGradient
    by_cases huses : d.usesAdvice = true
    · rw [if_pos huses]
      exact (hadvice huses).map _
    · rw [if_neg huses]
      exact failsOnly_ok _
  refine hsum.bind fun sum _ => ?_
  split
  · exact failsOnly_ok _
  · exact (hlabel sum).map _

theorem failsOnly_ofDataset
    (hfacts : FailsOnly reasons (ProofError.ofSyntax (RuleBase.parse d.facts))) :
    FailsOnly reasons (ofDataset trees d limit) := hfacts.map _

/-- The ensemble of trees with the facts of a data set. -/
theorem ofDataset_eq_ok_iff : ofDataset trees d limit = .ok e ↔
    ∃ base, RuleBase.parse d.facts = .ok base ∧ e = ⟨trees, base, limit⟩ := by
  constructor
  · intro h
    obtain ⟨base, hbase, he⟩ := bind_eq_ok_iff.1 h
    exact ⟨base, ProofError.ofSyntax_eq_ok_iff.1 hbase, (Except.ok.inj he).symm⟩
  · rintro ⟨base, hbase, rfl⟩
    exact bind_eq_ok_iff.2 ⟨base, ProofError.ofSyntax_eq_ok_iff.2 hbase, rfl⟩

end Ensemble

/-! ### Data sets -/

namespace Dataset

variable {config : BoostConfig}

/-- An update fails only where the facts are read or a gradient is found. -/
theorem failsOnly_updateGradients {loss : Loss}
    (hfacts : FailsOnly reasons (ProofError.ofSyntax (RuleBase.parse d.facts)))
    (hgradient : ∀ base, RuleBase.parse d.facts = .ok base → ∀ text ∈ d.examples,
      FailsOnly reasons (Ensemble.gradient ⟨trees, base, limit⟩ d loss text)) :
    FailsOnly reasons (d.updateGradients trees loss limit) := by
  refine (Ensemble.failsOnly_ofDataset hfacts).bind fun e he => ?_
  obtain ⟨base, hbase, rfl⟩ := Ensemble.ofDataset_eq_ok_iff.1 he
  exact (failsOnly_mapM fun text htext => (hgradient base hbase text htext).map _).map _

/-- Predictions fail only where the facts are read or a sum is formed. -/
theorem failsOnly_infer (hfacts : FailsOnly reasons (ProofError.ofSyntax (RuleBase.parse d.facts)))
    (hsum : ∀ base, RuleBase.parse d.facts = .ok base → ∀ text ∈ d.examples,
      FailsOnly reasons (Ensemble.sum ⟨trees, base, limit⟩ text)) :
    FailsOnly reasons (d.infer trees limit) := by
  have hpredictions : FailsOnly reasons (d.predictions trees limit) := by
    refine (Ensemble.failsOnly_ofDataset hfacts).bind fun e he => ?_
    obtain ⟨base, hbase, rfl⟩ := Ensemble.ofDataset_eq_ok_iff.1 he
    exact failsOnly_mapM fun text htext => ((hsum base hbase text htext).map _).map _
  exact hpredictions.map _

/-- A round fails only where its tree is learned or the gradients are updated. -/
theorem failsOnly_boost (htree : FailsOnly reasons (d.learnTree config.tree))
    (hupdate : ∀ tree, d.learnTree config.tree = .ok tree →
      FailsOnly reasons (d.updateGradients (trees ++ [tree]) config.loss config.tree.stepLimit)) :
    FailsOnly reasons (d.boost config trees) :=
  htree.bind fun tree htree => (hupdate tree htree).map _

/-- The parts of a round. -/
theorem boost_eq_ok_iff {out : List LearnedTree × Dataset} : d.boost config trees = .ok out ↔
    ∃ tree, d.learnTree config.tree = .ok tree ∧ out.1 = trees ++ [tree] ∧
      d.updateGradients (trees ++ [tree]) config.loss config.tree.stepLimit = .ok out.2 := by
  constructor
  · intro h
    obtain ⟨tree, htree, h⟩ := bind_eq_ok_iff.1 h
    obtain ⟨d', hupdate, h⟩ := bind_eq_ok_iff.1 h
    cases h
    exact ⟨tree, htree, rfl, hupdate⟩
  · obtain ⟨trees', d'⟩ := out
    rintro ⟨tree, htree, rfl, hupdate⟩
    exact bind_eq_ok_iff.2 ⟨tree, htree, bind_eq_ok_iff.2 ⟨d', hupdate, rfl⟩⟩

/-- A boosting run fails only where one of its rounds fails, on data sets and after trees of a kind that
rounds keep; and it ends with such. -/
theorem failsOnly_learnMore {P : List LearnedTree → Dataset → Prop}
    (hboost : ∀ trees d, P trees d → FailsOnly reasons (d.boost config trees))
    (hkeeps : ∀ trees d out, P trees d → d.boost config trees = .ok out → P out.1 out.2)
    (rounds : Nat) (h : P trees d) :
    FailsOnly reasons (learnMore config rounds trees d).1 ∧
      ∃ found, P found (learnMore config rounds trees d).2 ∧
        ∀ learned, (learnMore config rounds trees d).1 = .ok learned → learned = found := by
  induction rounds generalizing trees d with
  | zero => exact ⟨failsOnly_ok _, trees, h, fun learned hlearned => (Except.ok.inj hlearned).symm⟩
  | succ rounds ih =>
      rw [learnMore]
      -- a failed round leaves the data set as it was, and the run ends with it
      cases hout : d.boost config trees with
      | error e =>
          refine ⟨fun e' he' => ?_, trees, h, nofun⟩
          cases he'
          exact hboost trees d h e hout
      | ok out => exact ih (hkeeps trees d out h hout)

end Dataset

end ClauseForest
