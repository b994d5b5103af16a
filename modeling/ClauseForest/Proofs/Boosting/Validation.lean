/-
**Data that are checked once**

Boosting reads the same texts again and again: the facts once for every ensemble, every example for the
splits of every tree, for its gradients and for its predictions, and the clauses of advice for every
gradient.  For classification all of them were checked when the data were read from files, and giving
values to examples adds no texts.  So no text is found malformed later.  A boosting run, and the
predictions of any trees, can fail in one way only: some proof runs out of steps.

Main results:

* `Dataset.Readable.onlyRunsOut_updateGradients`, `Dataset.Readable.onlyRunsOut_infer`,
  `Dataset.Readable.onlyRunsOut_learn` — what is computed from readable data only runs out of steps;
* `Dataset.onlyRunsOut_learn_and_infer` — **so do boosting runs and predictions on data that were read**.
-/

import ClauseForest.Proofs.Boosting.Failure
import ClauseForest.Proofs.Dataset.History
import ClauseForest.Proofs.Tree.Validation

set_option relaxedAutoImplicit false
set_option autoImplicit false

namespace ClauseForest

namespace Dataset

variable {d : Dataset}

/-- Readable facts make up a rule base. -/
theorem Readable.failsOnly_facts {reasons : ProofError → Prop} (h : d.Readable) :
    FailsOnly reasons (ProofError.ofSyntax (RuleBase.parse d.facts)) := by
  obtain ⟨rules, hrules⟩ := exists_mapM_iff.2 h.facts
  exact failsOnly_ofSyntax ⟨_, map_eq_ok_iff.2 ⟨rules, hrules, rfl⟩⟩

/-- The sum of an example that can be read only runs out of steps. -/
theorem onlyRunsOut_sum (e : Ensemble) {text : String}
    (htext : ∃ query, Term.parse text = .ok query) : OnlyRunsOut e.limit (e.sum text) := by
  refine Ensemble.failsOnly_sum (failsOnly_ofSyntax htext) fun tree _ query => ?_
  exact LearnedTree.failsOnly_valueOf fun leaf _ =>
    Session.onlyRunsOut_prove ⟨e.facts, some leaf.rule, e.limit⟩ query

/-- The balance of the advice for an example that can be read only runs out of steps. -/
theorem Readable.onlyRunsOut_advice (h : d.Readable) (e : Ensemble) {text : String}
    (htext : ∃ query, Term.parse text = .ok query) : OnlyRunsOut e.limit (e.advice d text) := by
  refine (failsOnly_ofSyntax htext).bind fun query _ => FailsOnly.map ?_ _
  exact Ensemble.failsOnly_addVotes (fun piece hpiece => failsOnly_ofSyntax (h.advice piece hpiece))
    (fun clause => Session.onlyRunsOut_prove ⟨e.facts, some clause, e.limit⟩ query) 0

/-- The update of the gradients only runs out of steps. -/
theorem Readable.onlyRunsOut_updateGradients (h : d.Readable) (trees : List LearnedTree)
    (loss : Loss) (limit : Option Nat) : OnlyRunsOut limit (d.updateGradients trees loss limit) := by
  refine failsOnly_updateGradients h.failsOnly_facts fun base _ text htext => ?_
  have hread := h.examples text htext
  exact Ensemble.failsOnly_gradient (onlyRunsOut_sum ⟨trees, base, limit⟩ hread)
    (fun _ => h.onlyRunsOut_advice ⟨trees, base, limit⟩ hread) loss

/-- The predictions only run out of steps. -/
theorem Readable.onlyRunsOut_infer (h : d.Readable) (trees : List LearnedTree) (limit : Option Nat) :
    OnlyRunsOut limit (d.infer trees limit) :=
  failsOnly_infer h.failsOnly_facts fun base _ text htext =>
    onlyRunsOut_sum ⟨trees, base, limit⟩ (h.examples text htext)

/-- A boosting run only runs out of steps. -/
theorem Readable.onlyRunsOut_learn (h : d.Readable) (hd : d.HasBackground) (config : BoostConfig) :
    OnlyRunsOut config.tree.stepLimit (d.learn config).1 := by
  -- a round gives values to examples, and changes nothing else
  refine (failsOnly_learnMore (P := fun _ d => d.Readable ∧ d.HasBackground) ?_ ?_ config.trees
    ⟨h, hd⟩).1
  · rintro trees d ⟨h, hd⟩
    exact failsOnly_boost (onlyRunsOut_learnTree h hd config.tree) fun tree _ =>
      h.onlyRunsOut_updateGradients _ config.loss config.tree.stepLimit
  · rintro trees d out ⟨h, hd⟩ hout
    obtain ⟨tree, -, -, hupdate⟩ := boost_eq_ok_iff.1 hout
    obtain ⟨values, hvalues⟩ := exists_setValues_of_updateGradients hupdate
    rw [hvalues]
    exact ⟨h.setValues values, (d.sameProblem_setValues values).hasBackground hd⟩

/-- What was read for classification is checked.  Whatever the files, the directory, the target and the
options: a boosting run with any parameters on the training data that were read, and the predictions of
any trees under any limit on the test data that were read, fail only where a proof runs out of steps. -/
theorem onlyRunsOut_learn_and_infer (files : FileTree) (dir target : String) (options : DataOptions)
    (hoptions : options.regression = false) :
    (∀ d, readTraining files dir target options = .ok d → ∀ config : BoostConfig,
      OnlyRunsOut config.tree.stepLimit (d.learn config).1) ∧
    ∀ d, readTest files dir target options = .ok d → ∀ trees limit,
      OnlyRunsOut limit (d.infer trees limit) := by
  constructor
  · intro d hread config
    exact (readable_of_readTraining hoptions hread).onlyRunsOut_learn
      (hasBackground_of_readTraining hread) config
  · intro d hread trees limit
    exact (readable_of_readTest hoptions hread).onlyRunsOut_infer trees limit

/-- The files of a classification problem with advice. -/
def adviceFiles : FileTree := .directory [("data", .directory
  [("facts.txt", .file "friends(ann,bob)\n".toUTF8),
    ("pos.txt", .file "cancer(ann)\n".toUTF8),
    ("neg.txt", .file "cancer(bob)\n".toUTF8),
    ("bk.txt", .file "friends(+person,-person)\ncancer(+person)\n".toUTF8),
    ("advice.txt", .file "cancer(A):-friends(A,bob) [cancer] []\n".toUTF8)])]

/-- The theorem for these files: data are read from them, so they are checked. -/
theorem onlyRunsOut_learn_and_infer_advice :
    (∃ d, readTraining adviceFiles "data" "cancer" ⟨false, true⟩ = .ok d ∧
      ∀ config : BoostConfig, OnlyRunsOut config.tree.stepLimit (d.learn config).1) ∧
    ∃ d, readTest adviceFiles "data" "cancer" ⟨false, true⟩ = .ok d ∧
      ∀ trees limit, OnlyRunsOut limit (d.infer trees limit) := by
  have htraining : (readTraining adviceFiles "data" "cancer" ⟨false, true⟩).toOption.isSome := by
    decide +kernel
  have htest : (readTest adviceFiles "data" "cancer" ⟨false, true⟩).toOption.isSome := by
    decide +kernel
  obtain ⟨hlearn, hinfer⟩ :=
    onlyRunsOut_learn_and_infer adviceFiles "data" "cancer" ⟨false, true⟩ rfl
  obtain ⟨d, hd⟩ := Option.isSome_iff_exists.1 htraining
  obtain ⟨d', hd'⟩ := Option.isSome_iff_exists.1 htest
  rw [toOption_eq_some_iff] at hd hd'
  exact ⟨⟨d, hd, hlearn d hd⟩, d', hd', hinfer d' hd'⟩

end Dataset

end ClauseForest
