/-
**Boosting under a limit that is not reached**

A boosting run makes many proofs: for the tests of its trees, for the sums of the examples and for the
advice.  If all of them end within a limit, a larger limit makes no difference to any of them, hence
none to the trees, the gradients between the trees and the predictions.  Any difference at one place
would change all that comes later.

Main results:

* `Ensemble.sum_mono`, `Ensemble.advice_mono` — sums and advice under a larger limit;
* `Dataset.updateGradients_mono`, `Dataset.infer_mono` — gradients and predictions;
* `Dataset.learnMore_mono` — the rounds of a run;
* `Dataset.learn_and_infer_of_limitLE` — **a limit that is never reached changes nothing**.
-/

import ClauseForest.Proofs.Boosting.Failure
import ClauseForest.Proofs.Tree.Coverage
import ClauseForest.Proofs.Tree.StepLimit

set_option relaxedAutoImplicit false
set_option autoImplicit false

namespace ClauseForest

variable {limit limit' : Option Nat}

/-! ### Ensembles -/

namespace Ensemble

variable {e : Ensemble}

/-- The limit of an ensemble plays no part when its facts are read. -/
theorem ofDataset_mono {trees : List LearnedTree} {d : Dataset}
    (h : ofDataset trees d limit = .ok e) (limit' : Option Nat) :
    e.limit = limit ∧ ofDataset trees d limit' = .ok { e with limit := limit' } := by
  obtain ⟨facts, hfacts, rfl⟩ := ofDataset_eq_ok_iff.1 h
  exact ⟨rfl, ofDataset_eq_ok_iff.2 ⟨facts, hfacts, rfl⟩⟩

theorem addValues_mono (hle : LimitLE e.limit limit) {query : Term} {trees : List LearnedTree}
    {start out : Float} (h : e.addValues query start trees = .ok out) :
    { e with limit }.addValues query start trees = .ok out := by
  induction trees generalizing start with
  | nil => exact h
  | cons tree trees ih =>
      refine bind_mono (fun _ => LearnedTree.valueOf_mono hle) (fun value hrest => ?_) h
      cases value with
      | none => exact ih hrest
      | some value => exact ih hrest

/-- A sum under a limit is the sum under every larger limit. -/
theorem sum_mono (hle : LimitLE e.limit limit) {text : String} {out : Float}
    (h : e.sum text = .ok out) : { e with limit }.sum text = .ok out :=
  bind_mono (fun _ => id) (fun _ => addValues_mono hle) h

theorem addVotes_mono (hle : LimitLE e.limit limit) {query : Term} {advice : List Advice}
    {start out : Int} (h : e.addVotes query start advice = .ok out) :
    { e with limit }.addVotes query start advice = .ok out := by
  induction advice generalizing start with
  | nil => exact h
  | cons piece advice ih =>
      refine bind_mono (fun _ => id) (fun clause hvotes => ?_) h
      refine bind_mono (fun _ => Session.prove_mono hle) (fun holds hrest => ?_) hvotes
      cases holds with
      | true => exact ih hrest
      | false => exact ih hrest

/-- The balance of the advice under a limit is the balance under every larger limit. -/
theorem advice_mono (hle : LimitLE e.limit limit) {d : Dataset} {text : String} {out : Float}
    (h : e.advice d text = .ok out) : { e with limit }.advice d text = .ok out := by
  refine bind_mono (fun _ => id) (fun query hvotes => ?_) h
  exact bind_mono (fun _ => addVotes_mono hle) (fun _ => id) hvotes

theorem labelGradient_mono (hle : LimitLE e.limit limit) {d : Dataset} {text : String}
    {sum out : Float} (h : e.labelGradient d text sum = .ok out) :
    { e with limit }.labelGradient d text sum = .ok out := by
  cases hadvice : d.usesAdvice with
  | false =>
      simp only [labelGradient, hadvice, Bool.false_eq_true, if_false] at h ⊢
      exact h
  | true =>
      simp only [labelGradient, hadvice, if_true] at h ⊢
      exact bind_mono (fun _ => advice_mono hle) (fun _ => id) h

theorem gradient_mono (hle : LimitLE e.limit limit) {d : Dataset} {loss : Loss} {text : String}
    {out : Option Float} (h : e.gradient d loss text = .ok out) :
    { e with limit }.gradient d loss text = .ok out := by
  refine bind_mono (fun _ => sum_mono hle) (fun sum hgradient => ?_) h
  cases hregression : d.isRegression with
  | true =>
      simp only [hregression, if_true] at hgradient ⊢
      exact hgradient
  | false =>
      simp only [hregression, Bool.false_eq_true, if_false] at hgradient ⊢
      exact bind_mono (fun _ => labelGradient_mono hle) (fun _ => id) hgradient

theorem predict_mono (hle : LimitLE e.limit limit) {d : Dataset} {text : String} {out : Float}
    (h : e.predict d text = .ok out) : { e with limit }.predict d text = .ok out :=
  bind_mono (fun _ => sum_mono hle) (fun _ => id) h

end Ensemble

/-! ### Data sets -/

namespace Dataset

variable {d d' : Dataset} {trees : List LearnedTree}

/-- Gradients that are found under a limit are found under every larger limit. -/
theorem updateGradients_mono (hle : LimitLE limit limit') {loss : Loss}
    (h : d.updateGradients trees loss limit = .ok d') :
    d.updateGradients trees loss limit' = .ok d' := by
  obtain ⟨e, he, hupdates⟩ := bind_eq_ok_iff.1 h
  obtain ⟨rfl, he'⟩ := Ensemble.ofDataset_mono he limit'
  refine bind_eq_ok_iff.2 ⟨_, he', ?_⟩
  refine bind_mono (fun updates hmap => ?_) (fun _ => id) hupdates
  refine mapM_eq_ok_iff.2 ((mapM_eq_ok_iff.1 hmap).imp fun text update hupdate => ?_)
  exact bind_mono (fun _ => Ensemble.gradient_mono hle) (fun _ => id) hupdate

/-- Predictions that are made under a limit are made under every larger limit. -/
theorem infer_mono (hle : LimitLE limit limit') {out : List (String × Float) × Dataset}
    (h : d.infer trees limit = .ok out) : d.infer trees limit' = .ok out := by
  refine bind_mono (fun predicted hpredicted => ?_) (fun _ => id) h
  obtain ⟨e, he, hpredictions⟩ := bind_eq_ok_iff.1 hpredicted
  obtain ⟨rfl, he'⟩ := Ensemble.ofDataset_mono he limit'
  refine bind_eq_ok_iff.2 ⟨_, he', ?_⟩
  refine mapM_eq_ok_iff.2 ((mapM_eq_ok_iff.1 hpredictions).imp fun text prediction hpredict => ?_)
  exact bind_mono (fun _ => Ensemble.predict_mono hle) (fun _ => id) hpredict

end Dataset

/-! ### Boosting -/

/-- The same parameters with another limit. -/
def BoostConfig.withLimit (config : BoostConfig) (limit : Option Nat) : BoostConfig :=
  { config with tree := config.tree.withLimit limit }

namespace Dataset

variable {d d' : Dataset} {config : BoostConfig} {trees found : List LearnedTree}

/-- A round that succeeds under a limit is the same under every larger limit. -/
theorem boost_mono (hle : LimitLE limit limit') {out : List LearnedTree × Dataset}
    (h : d.boost (config.withLimit limit) trees = .ok out) :
    d.boost (config.withLimit limit') trees = .ok out := by
  refine bind_mono (fun _ => learnTree_mono hle) (fun tree hupdate => ?_) h
  exact bind_mono (fun _ => updateGradients_mono hle) (fun _ => id) hupdate

/-- Rounds that succeed under a limit are the same under every larger limit. -/
theorem learnMore_mono (hle : LimitLE limit limit') {rounds : Nat}
    (h : learnMore (config.withLimit limit) rounds trees d = (.ok found, d')) :
    learnMore (config.withLimit limit') rounds trees d = (.ok found, d') := by
  induction rounds generalizing trees d with
  | zero => exact h
  | succ rounds ih =>
      rw [learnMore] at h ⊢
      -- only a round that succeeds can be followed by others
      cases hround : d.boost (config.withLimit limit) trees with
      | error e =>
          rw [hround] at h
          cases h
      | ok out =>
          rw [hround] at h
          rw [boost_mono hle hround]
          exact ih h

/-- A round that is followed by others that succeed learns a tree and updates the gradients for it. -/
theorem exists_of_learnMore_succ {rounds : Nat} {earlier : List LearnedTree}
    (h : learnMore config (rounds + 1) earlier d = (.ok found, d')) : ∃ tree next,
      d.learnTree config.tree = .ok tree ∧
      d.updateGradients (earlier ++ [tree]) config.loss config.tree.stepLimit = .ok next ∧
      learnMore config rounds (earlier ++ [tree]) next = (.ok found, d') := by
  rw [learnMore] at h
  cases hround : d.boost config earlier with
  | error fault =>
      rw [hround] at h
      cases h
  | ok out =>
      rw [hround] at h
      obtain ⟨tree, htree, hmore, hupdate⟩ := boost_eq_ok_iff.1 hround
      exact ⟨tree, out.2, htree, hupdate, hmore ▸ h⟩

/-- **A limit that is never reached changes nothing.**  What is learned, predicted and evaluated under
a limit is learned, predicted and evaluated in the same way under every larger limit and without one,
for every data set, every parameters and all trees.  A boosting run returns the same trees and leaves
the same data set behind, current values included; inference returns the same predictions and leaves
the same data set; and so it is with a single tree and with the value of an example. -/
theorem learn_and_infer_of_limitLE (limit limit' : Option Nat) (hle : LimitLE limit limit') :
    (∀ (d : Dataset) (config : BoostConfig) (trees : List LearnedTree) (d' : Dataset),
      d.learn (config.withLimit limit) = (.ok trees, d') →
        d.learn (config.withLimit limit') = (.ok trees, d')) ∧
    (∀ (d : Dataset) (trees : List LearnedTree) (predictions : List (String × Float)) (d' : Dataset),
      d.infer trees limit = .ok (predictions, d') → d.infer trees limit' = .ok (predictions, d')) ∧
    (∀ (tree : LearnedTree) (facts : RuleBase) (query : Term) (value : Option Float),
      tree.valueOf facts query limit = .ok value → tree.valueOf facts query limit' = .ok value) ∧
    ∀ (d : Dataset) (config : TreeConfig) (tree : LearnedTree),
      d.learnTree (config.withLimit limit) = .ok tree →
        d.learnTree (config.withLimit limit') = .ok tree := by
  refine ⟨?_, ?_, ?_, ?_⟩
  · intro d config trees d' h
    exact learnMore_mono hle h
  · intro d trees predictions d' h
    exact infer_mono hle h
  · intro tree facts query value h
    exact LearnedTree.valueOf_mono hle h
  · intro d config tree h
    exact learnTree_mono hle h

/-! ### A small run -/

/-- A regression problem: the sizes of two persons, one of whom is tall. -/
def sizeData : Dataset :=
  (((((empty ⟨true, false⟩).setFacts ["tall(ann)"]).addExamples "size"
    ["size(ann) 2.0", "size(bob) 1.0"]).1).setBackground "size"
    [⟨"tall", [.typed (some .input) "person"]⟩, ⟨"size", [.typed (some .input) "person"]⟩]).1

/-- What the tree of this problem is grown from. -/
def sizeGrower : Grower := ⟨sizeData, .ofList [.fact ⟨"tall", ["ann"]⟩], ⟨"size", ["A"]⟩, some 20⟩

/-- The leaves of the tree of this problem. -/
def sizeLeaves : List Node :=
  [⟨["size(ann)"], [⟨"tall", ["A"]⟩], [⟨"tall", ["A"]⟩]⟩, ⟨["size(bob)"], [], [⟨"tall", ["A"]⟩]⟩]

/-- The tree of this problem. -/
def sizeTree : LearnedTree := ⟨sizeLeaves.map sizeGrower.leafOf⟩

/-- One tree for the least squares loss. -/
def sizeConfig : BoostConfig := ⟨1, .leastSquares, .default⟩

theorem learnTree_sizeData : sizeData.learnTree (sizeConfig.tree.withLimit (some 20)) =
    .ok sizeTree := by
  have hrules : sizeData.facts.mapM Rule.parse = .ok [.fact ⟨"tall", ["ann"]⟩] := by decide +kernel
  have htarget : Term.parse "size(A)" = .ok ⟨"size", ["A"]⟩ := by decide +kernel
  have hgrower : sizeData.grower (sizeConfig.tree.withLimit (some 20)) = .ok sizeGrower :=
    grower_eq_ok_iff.2 ⟨_, _, hrules, htarget, rfl⟩
  have hgrow : sizeGrower.grow 2 [.root sizeData.examples] = .ok sizeLeaves := by decide +kernel
  have hsorted : LearnedTree.ofLeaves (sizeLeaves.map sizeGrower.leafOf) = sizeTree :=
    congrArg LearnedTree.mk (List.mergeSort_of_pairwise (by decide +kernel))
  rw [learnTree_eq hgrower hgrow, hsorted]

theorem exists_updateGradients_sizeData :
    ∃ d', sizeData.updateGradients [sizeTree] .leastSquares (some 20) = .ok d' := by
  obtain ⟨d', hupdate⟩ : ∃ d',
      (sizeData.updateGradients [sizeTree] .leastSquares (some 20)).toOption = some d' :=
    Option.isSome_iff_exists.1 (by decide +kernel)
  exact ⟨d', toOption_eq_some_iff.1 hupdate⟩

/-- The boosting run for this problem ends within twenty steps for every proof. -/
theorem exists_learn_sizeData :
    ∃ d', sizeData.learn (sizeConfig.withLimit (some 20)) = (.ok [sizeTree], d') := by
  obtain ⟨d', hupdate⟩ := exists_updateGradients_sizeData
  have hround : sizeData.boost (sizeConfig.withLimit (some 20)) [] = .ok ([sizeTree], d') :=
    bind_eq_ok_iff.2 ⟨sizeTree, learnTree_sizeData, bind_eq_ok_iff.2 ⟨d', hupdate, rfl⟩⟩
  have hrounds : (sizeConfig.withLimit (some 20)).trees = 1 := rfl
  refine ⟨d', ?_⟩
  rw [learn, hrounds, learnMore, hround]
  rfl

/-- The theorem at a run that ends within twenty steps for every proof. -/
theorem learn_and_infer_of_limitLE_sizes :
    LimitLE (some 20) none ∧ ∃ d' predictions d'',
      sizeData.learn (sizeConfig.withLimit (some 20)) = (.ok [sizeTree], d') ∧
      sizeData.learn (sizeConfig.withLimit none) = (.ok [sizeTree], d') ∧
      sizeData.infer [sizeTree] (some 20) = .ok (predictions, d'') ∧
      sizeData.infer [sizeTree] none = .ok (predictions, d'') := by
  obtain ⟨d', hlearn⟩ := exists_learn_sizeData
  obtain ⟨⟨predictions, d''⟩, hinfer⟩ : ∃ out, (sizeData.infer [sizeTree] (some 20)).toOption =
      some out := Option.isSome_iff_exists.1 (by decide +kernel)
  have hinfer := toOption_eq_some_iff.1 hinfer
  obtain ⟨hlearned, hinferred, -, -⟩ := learn_and_infer_of_limitLE (some 20) none trivial
  exact ⟨trivial, d', predictions, d'', hlearn, hlearned _ _ _ _ hlearn, hinfer,
    hinferred _ _ _ _ hinfer⟩

end Dataset

end ClauseForest
