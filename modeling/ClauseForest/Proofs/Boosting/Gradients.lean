/-
**What gradients depend on**

The gradient of an example is computed from the trees, the facts, the label or the true value of the
example and the advice.  The current values play no part, also not that of the example.  So an update
gives the same values whatever the values were before, and to do it again changes nothing.

An update takes hold of the value of every example because every regression example has a true value:
an example and its true value are taken in together, and are never taken out.

Main definitions:

* `Dataset.Reachable` — the data sets that operations lead to;
* `Dataset.SameEvidence` — two data sets that differ in what no gradient depends on;
* `Dataset.Operation.GivesValues` — the operations that give values to examples.

Main results:

* `Dataset.Reachable.hasTrueValues` — every regression example has a true value;
* `Ensemble.mem_gradients_iff` — what the gradients of examples are;
* `Dataset.updateGradients_of_sameEvidence` — **gradients depend on the evidence only**;
* `Dataset.updateGradients_setValues` — values that are overwritten make no difference to an update;
* `Dataset.exists_updateGradients_of_learn` — a boosting run ends with an update for all its trees;
* `Dataset.updateGradients_and_learn` — all of it for an update in place, and after a boosting run.
-/

import ClauseForest.Boosting.InPlace
import ClauseForest.Proofs.Boosting.StepLimit
import ClauseForest.Proofs.Dataset.Assignment
import ClauseForest.Proofs.Dataset.History

set_option relaxedAutoImplicit false
set_option autoImplicit false

namespace ClauseForest

variable {d d' other : Dataset} {trees : List LearnedTree} {loss : Loss} {limit : Option Nat}
  {text : String}

/-! ### Operations that give values -/

namespace Dataset

/-- Whether an operation does nothing but give values to examples. -/
def Operation.GivesValues : Operation → Prop
  | .setValue .. | .updateGradients .. | .infer .. => True
  | _ => False

theorem Operation.exists_setValues_of_givesValues (d : Dataset) {op : Operation}
    (h : op.GivesValues) : ∃ values, op.apply d = d.setValues values := by
  cases op with
  | setValue text value => exact ⟨[(text, value)], rfl⟩
  | updateGradients trees loss limit =>
      cases hupdate : d.updateGradients trees loss limit with
      | error fault => exact ⟨[], by simp [apply, hupdate, setValues]⟩
      | ok d' =>
          obtain ⟨values, rfl⟩ := exists_setValues_of_updateGradients hupdate
          exact ⟨values, by simp [apply, hupdate]⟩
  | infer trees limit =>
      cases hinfer : d.infer trees limit with
      | error fault => exact ⟨[], by simp [apply, hinfer, setValues]⟩
      | ok out => exact ⟨out.1, by simp [apply, hinfer, eq_setValues_of_infer hinfer]⟩
  | _ => cases h

theorem setValues_append (d : Dataset) (values values' : List (String × Float)) :
    d.setValues (values ++ values') = (d.setValues values).setValues values' :=
  List.foldl_append

/-- Operations that give values one after another give values. -/
theorem exists_setValues_of_foldl (d : Dataset) {between : List Operation}
    (h : ∀ op ∈ between, op.GivesValues) :
    ∃ values, between.foldl Operation.apply d = d.setValues values := by
  induction between generalizing d with
  | nil => exact ⟨[], rfl⟩
  | cons op between ih =>
      obtain ⟨values, hop⟩ := Operation.exists_setValues_of_givesValues d (h op (by simp))
      obtain ⟨others, hothers⟩ := ih (d.setValues values) fun op' hop' =>
        h op' (List.mem_cons_of_mem _ hop')
      exact ⟨values ++ others, by rw [List.foldl_cons, hop, hothers, setValues_append]⟩

/-! ### Every regression example has a true value -/

/-- A data set that operations lead to. -/
def Reachable (d : Dataset) : Prop := ∃ options history, d = after options history

/-- The regression examples are those with a true value. -/
def HasTrueValues (d : Dataset) : Prop := d.estimates.keys = d.trueValues.keys

theorem Reachable.apply (h : d.Reachable) (op : Operation) : (op.apply d).Reachable := by
  obtain ⟨options, history, rfl⟩ := h
  exact ⟨options, history ++ [op], (after_concat options history op).symm⟩

theorem hasTrueValues_addExamples (h : d.HasTrueValues) (target : String) (lines : List String) :
    (d.addExamples target lines).1.HasTrueValues := by
  obtain ⟨_, _, heq, -, hkeys⟩ := d.exists_addExamples target lines
  exact heq ▸ hkeys h

theorem SameExamples.hasTrueValues (h : d.SameExamples d') (hd : d.HasTrueValues) :
    d'.HasTrueValues := by
  unfold HasTrueValues
  rw [h.estimates, h.trueValues]
  exact hd

theorem hasTrueValues_apply (h : d.HasTrueValues) (op : Operation) : (op.apply d).HasTrueValues := by
  by_cases hgives : op.GivesValues
  · obtain ⟨values, hvalues⟩ := Operation.exists_setValues_of_givesValues d hgives
    rw [hvalues]
    exact (d.sameExamples_setValues values).hasTrueValues h
  · cases op with
    | setFacts facts => exact h
    | addPositives target texts => exact h
    | addNegatives target texts => exact h
    | addExamples target lines => exact hasTrueValues_addExamples h target lines
    | setBackground target background =>
        unfold Operation.apply setBackground
        dsimp only
        split <;> exact h
    | addAdvice advice => exact h
    | _ => exact absurd trivial hgives

/-- Every regression example has a true value. -/
theorem Reachable.hasTrueValues (h : d.Reachable) : d.HasTrueValues := by
  obtain ⟨options, history, rfl⟩ := h
  induction history using List.reverseRecOn with
  | nil => rfl
  | append_singleton history op ih =>
      rw [after_concat]
      exact hasTrueValues_apply ih op

end Dataset

/-! ### The gradients of examples -/

namespace Ensemble

variable {e : Ensemble} {texts : List String} {values : List (String × Float)} {value : Float}

/-- The gradients of examples are those that single examples have. -/
theorem mem_gradients_iff (h : e.gradients d loss texts = .ok values) :
    (text, value) ∈ values ↔ text ∈ texts ∧ e.gradient d loss text = .ok (some value) := by
  obtain ⟨found, hfound, rfl⟩ := map_eq_ok_iff.1 h
  simp only [List.mem_filterMap, id_eq, exists_eq_right]
  constructor
  · intro hmem
    obtain ⟨text', htext', hgradient⟩ := exists_of_mem_mapM hfound hmem
    obtain ⟨gradient, hgradient, hentry⟩ := bind_eq_ok_iff.1 hgradient
    cases gradient with
    | none => cases hentry
    | some value' =>
        cases hentry
        exact ⟨htext', hgradient⟩
  · rintro ⟨htext, hgradient⟩
    obtain ⟨entry, hentry, hmap⟩ := exists_mem_of_mapM hfound htext
    rw [hgradient] at hmap
    cases hmap
    exact hentry

/-- An example has a gradient if it has a label or a true value. -/
theorem exists_gradient (h : e.gradients d loss texts = .ok values) (htext : text ∈ texts)
    (hd : d.isRegression = true → d.trueValues.contains text = true) :
    ∃ value, e.gradient d loss text = .ok (some value) := by
  obtain ⟨found, hfound, -⟩ := map_eq_ok_iff.1 h
  obtain ⟨entry, -, hmap⟩ := exists_mem_of_mapM hfound htext
  obtain ⟨gradient, hgradient, -⟩ := bind_eq_ok_iff.1 hmap
  cases gradient with
  | some value => exact ⟨value, hgradient⟩
  | none =>
      obtain ⟨sum, -, hsum⟩ := bind_eq_ok_iff.1 hgradient
      cases hregression : d.isRegression with
      | true =>
          obtain ⟨actual, hactual⟩ := Option.isSome_iff_exists.1 (hd hregression)
          rw [hregression, Dataset.trueValue, hactual] at hsum
          cases hsum
      | false =>
          rw [hregression] at hsum
          obtain ⟨label, -, hlabel⟩ := bind_eq_ok_iff.1 hsum
          cases hlabel

end Ensemble

/-! ### The evidence -/

namespace Dataset

/-- Two data sets have the same facts, labels, true values, advice and options.  They may differ in their
current values, and in what trees are learned from. -/
structure SameEvidence (d d' : Dataset) : Prop where
  options : d'.options = d.options
  facts : d'.facts = d.facts
  advice : d'.advice = d.advice
  positives : d'.positives.keys = d.positives.keys
  negatives : d'.negatives.keys = d.negatives.keys
  trueValues : d'.trueValues = d.trueValues

namespace SameEvidence

theorem refl (d : Dataset) : d.SameEvidence d := ⟨rfl, rfl, rfl, rfl, rfl, rfl⟩

theorem trans (h : d.SameEvidence d') (h' : d'.SameEvidence other) : d.SameEvidence other where
  options := h'.options.trans h.options
  facts := h'.facts.trans h.facts
  advice := h'.advice.trans h.advice
  positives := h'.positives.trans h.positives
  negatives := h'.negatives.trans h.negatives
  trueValues := h'.trueValues.trans h.trueValues

theorem isRegression (h : d.SameEvidence d') : d'.isRegression = d.isRegression := by
  rw [Dataset.isRegression, Dataset.isRegression, h.options]

theorem usesAdvice (h : d.SameEvidence d') : d'.usesAdvice = d.usesAdvice := by
  rw [Dataset.usesAdvice, Dataset.usesAdvice, h.options]

theorem isPositive (h : d.SameEvidence d') (text : String) :
    d'.isPositive text = d.isPositive text := by
  rw [Dataset.isPositive, Dataset.isPositive, Bool.eq_iff_iff, ValueTable.contains_iff_mem_keys,
    ValueTable.contains_iff_mem_keys, h.positives]

theorem trueValue (h : d.SameEvidence d') (text : String) :
    d'.trueValue text = d.trueValue text := by
  rw [Dataset.trueValue, Dataset.trueValue, h.trueValues]

theorem ofDataset (h : d.SameEvidence d') (trees : List LearnedTree) (limit : Option Nat) :
    Ensemble.ofDataset trees d' limit = Ensemble.ofDataset trees d limit := by
  rw [Ensemble.ofDataset, Ensemble.ofDataset, h.facts]

/-- A gradient depends on the evidence only. -/
theorem gradient (h : d.SameEvidence d') (e : Ensemble) (loss : Loss) (text : String) :
    e.gradient d' loss text = e.gradient d loss text := by
  unfold Ensemble.gradient Ensemble.labelGradient Ensemble.advice
  rw [h.isRegression, h.usesAdvice, h.isPositive, h.trueValue, h.advice]

theorem gradients (h : d.SameEvidence d') (e : Ensemble) (loss : Loss) (texts : List String) :
    e.gradients d' loss texts = e.gradients d loss texts := by
  unfold Ensemble.gradients
  simp only [h.gradient]

theorem examples (h : d.SameEvidence d') (hd : d.HasTrueValues) (hd' : d'.HasTrueValues) :
    d'.examples = d.examples := by
  have hestimates : d'.estimates.keys = d.estimates.keys := by rw [hd', h.trueValues, ← hd]
  rw [Dataset.examples, Dataset.examples, h.isRegression, hestimates, h.positives, h.negatives]

end SameEvidence

/-- Giving a value keeps the evidence. -/
theorem sameEvidence_setValue (d : Dataset) (text : String) (value : Float) :
    d.SameEvidence (d.setValue text value) := by
  rw [setValue_eq]
  cases hp : d.place? text with
  | none => exact .refl d
  | some p =>
      have hkeys := ValueTable.keys_put_of_contains (contains_of_place? hp) value
      cases p with
      | estimates => exact ⟨rfl, rfl, rfl, rfl, rfl, rfl⟩
      | positives => exact ⟨rfl, rfl, rfl, hkeys, rfl, rfl⟩
      | negatives => exact ⟨rfl, rfl, rfl, rfl, hkeys, rfl⟩

theorem sameEvidence_setValues (d : Dataset) (values : List (String × Float)) :
    d.SameEvidence (d.setValues values) := by
  induction values generalizing d with
  | nil => exact .refl d
  | cons entry values ih => exact (d.sameEvidence_setValue entry.1 entry.2).trans (ih _)

/-! ### Updates -/

/-- Every example has a gradient among those that are found. -/
theorem exists_mem_of_gradients {e : Ensemble} {values : List (String × Float)}
    (hd : d.HasTrueValues) (h : e.gradients d loss d.examples = .ok values)
    (htext : text ∈ d.examples) :
    ∃ value, e.gradient d loss text = .ok (some value) ∧ (text, value) ∈ values := by
  obtain ⟨value, hvalue⟩ := Ensemble.exists_gradient h htext fun hregression => by
    rw [ValueTable.contains_iff_mem_keys, ← hd]
    simpa [examples, hregression] using htext
  exact ⟨value, hvalue, (Ensemble.mem_gradients_iff h).2 ⟨htext, hvalue⟩⟩

theorem mem_fst_of_gradients {e : Ensemble} {values : List (String × Float)}
    (hd : d.HasTrueValues) (h : e.gradients d loss d.examples = .ok values)
    (htext : text ∈ d.examples) : text ∈ values.map Prod.fst := by
  obtain ⟨value, -, hmem⟩ := exists_mem_of_gradients hd h htext
  exact List.mem_map_of_mem hmem

/-- An update stores the gradients of all examples. -/
theorem gradients_of_updateGradients (h : d.updateGradients trees loss limit = .ok d') :
    ∃ e values, Ensemble.ofDataset trees d limit = .ok e ∧
      e.gradients d loss d.examples = .ok values ∧ d.setValues values = d' := by
  rw [updateGradients_eq] at h
  obtain ⟨e, he, hupdates⟩ := bind_eq_ok_iff.1 h
  obtain ⟨values, hvalues, hset⟩ := map_eq_ok_iff.1 hupdates
  exact ⟨e, values, he, hvalues, hset⟩

/-- After an update every example has its gradient as its value. -/
theorem value?_of_updateGradients (hd : d.HasTrueValues)
    (h : d.updateGradients trees loss limit = .ok d') (htext : text ∈ d.examples) :
    ∃ e value, Ensemble.ofDataset trees d limit = .ok e ∧
      e.gradient d loss text = .ok (some value) ∧ d'.value? text = some value := by
  obtain ⟨e, values, he, hvalues, rfl⟩ := gradients_of_updateGradients h
  obtain ⟨value, hvalue, hmem⟩ := exists_mem_of_gradients hd hvalues htext
  refine ⟨e, value, he, hvalue, value?_setValues_of_forall htext hmem fun value' hmem' => ?_⟩
  -- an example that is listed twice has its one gradient both times
  obtain ⟨-, hvalue'⟩ := (Ensemble.mem_gradients_iff hvalues).1 hmem'
  exact Option.some.inj (Except.ok.inj (hvalue'.symm.trans hvalue))

/-- Data sets with the same evidence have the same gradients, or none for the same reason. -/
theorem updateGradients_of_sameEvidence (hd : d.HasTrueValues) (hother : other.HasTrueValues)
    (h : d.SameEvidence other) (trees : List LearnedTree) (loss : Loss) (limit : Option Nat) :
    (∃ fault, d.updateGradients trees loss limit = .error fault ∧
      other.updateGradients trees loss limit = .error fault) ∨
    ∃ values, (∀ text ∈ d.examples, text ∈ values.map Prod.fst) ∧
      d.updateGradients trees loss limit = .ok (d.setValues values) ∧
      other.updateGradients trees loss limit = .ok (other.setValues values) := by
  rw [updateGradients_eq, updateGradients_eq, h.ofDataset, h.examples hd hother]
  cases Ensemble.ofDataset trees d limit with
  | error fault => exact .inl ⟨fault, rfl, rfl⟩
  | ok e =>
      show (∃ fault, d.setValues <$> e.gradients d loss d.examples = .error fault ∧
        other.setValues <$> e.gradients other loss d.examples = .error fault) ∨ _
      rw [h.gradients]
      cases hvalues : e.gradients d loss d.examples with
      | error fault => exact .inl ⟨fault, rfl, rfl⟩
      | ok values =>
          exact .inr ⟨values, fun text htext => mem_fst_of_gradients hd hvalues htext,
            map_eq_ok_iff.2 ⟨values, hvalues, rfl⟩,
            map_eq_ok_iff.2 ⟨values, (h.gradients e loss d.examples).trans hvalues, rfl⟩⟩

/-- Values that are overwritten make no difference to an update, nor to what it leaves behind. -/
theorem updateGradients_setValues (hd : d.HasTrueValues)
    (h : d.updateGradients trees loss limit = .ok d') (values : List (String × Float)) :
    (d.setValues values).updateGradients trees loss limit = .ok d' := by
  obtain ⟨e, gradients, he, hgradients, rfl⟩ := gradients_of_updateGradients h
  have hsame := d.sameEvidence_setValues values
  rw [updateGradients_eq, hsame.ofDataset, (d.sameExamples_setValues values).examples]
  refine bind_eq_ok_iff.2 ⟨e, he, map_eq_ok_iff.2 ⟨gradients, ?_, ?_⟩⟩
  · rw [hsame.gradients, hgradients]
  · exact setValues_setValues fun text htext => mem_fst_of_gradients hd hgradients htext

/-! ### Boosting runs -/

/-- Rounds that are made lead to a reachable data set, and the last of them ends with an update for all
trees. -/
theorem exists_updateGradients_of_learnMore {config : BoostConfig} {rounds : Nat}
    {earlier : List LearnedTree} (hd : d.Reachable)
    (h : learnMore config rounds earlier d = (.ok trees, d')) :
    (trees = earlier ∧ d' = d) ∨ ∃ before : Dataset, before.Reachable ∧
      before.updateGradients trees config.loss config.tree.stepLimit = .ok d' := by
  induction rounds generalizing earlier d with
  | zero =>
      cases h
      exact .inl ⟨rfl, rfl⟩
  | succ rounds ih =>
      obtain ⟨tree, next, -, hupdate, hmore⟩ := exists_of_learnMore_succ h
      have hnext : Operation.apply d (.updateGradients (earlier ++ [tree]) config.loss
          config.tree.stepLimit) = next := by simp [Operation.apply, hupdate]
      obtain ⟨rfl, rfl⟩ | hlast := ih (hnext ▸ hd.apply _) hmore
      · exact .inr ⟨d, hd, hupdate⟩
      · exact .inr hlast

/-- A boosting run that returns trees ends with an update for all of them. -/
theorem exists_updateGradients_of_learn {config : BoostConfig} (hd : d.Reachable)
    (h : d.learn config = (.ok trees, d')) (hne : trees ≠ []) :
    ∃ before : Dataset, before.Reachable ∧
      before.updateGradients trees config.loss config.tree.stepLimit = .ok d' := by
  obtain ⟨hnil, -⟩ | hlast := exists_updateGradients_of_learnMore hd h
  · exact absurd hnil hne
  · exact hlast

/-! ### Updates in place -/

/-- An update in place changes nothing, or it gives every example its gradient; to repeat it then changes
nothing. -/
theorem run_updateGradients_cases (hd : d.HasTrueValues) (trees : List LearnedTree) (loss : Loss)
    (limit : Option Nat) :
    (∃ fault, (InPlace.updateGradients trees loss limit).run.run d = (.error fault, d)) ∨
    ∃ d', (InPlace.updateGradients trees loss limit).run.run d = (.ok (), d') ∧
      d.SameEvidence d' ∧
      (∀ text ∈ d.examples, ∃ e value, Ensemble.ofDataset trees d limit = .ok e ∧
        e.gradient d loss text = .ok (some value) ∧ d'.value? text = some value) ∧
      (InPlace.updateGradients trees loss limit).run.run d' = (.ok (), d') := by
  rw [InPlace.run_updateGradients]
  cases hupdate : d.updateGradients trees loss limit with
  | error fault => exact .inl ⟨fault, rfl⟩
  | ok d' =>
      obtain ⟨values, rfl⟩ := exists_setValues_of_updateGradients hupdate
      refine .inr ⟨_, rfl, d.sameEvidence_setValues values, ?_, ?_⟩
      · intro text htext
        exact value?_of_updateGradients hd hupdate htext
      · rw [InPlace.run_updateGradients, updateGradients_setValues hd hupdate]

/-- Updates in place of data sets with the same evidence succeed or fail alike, and all values are the
same after them. -/
theorem run_updateGradients_of_sameEvidence (hd : d.HasTrueValues) (hother : other.HasTrueValues)
    (h : d.SameEvidence other) (trees : List LearnedTree) (loss : Loss) (limit : Option Nat) :
    ∃ result after after',
      (InPlace.updateGradients trees loss limit).run.run d = (result, after) ∧
      (InPlace.updateGradients trees loss limit).run.run other = (result, after') ∧
      (result = .ok () → ∀ text, after'.value text = after.value text) := by
  rw [InPlace.run_updateGradients, InPlace.run_updateGradients]
  obtain ⟨fault, hfault, hfault'⟩ | ⟨values, hcover, hvalues, hvalues'⟩ :=
    updateGradients_of_sameEvidence hd hother h trees loss limit
  · rw [hfault, hfault']
    exact ⟨.error fault, d, other, rfl, rfl, nofun⟩
  · rw [hvalues, hvalues']
    refine ⟨.ok (), _, _, rfl, rfl, fun _ text => ?_⟩
    have hexamples := h.examples hd hother
    by_cases htext : text ∈ d.examples
    · rw [value, value, value?_setValues_congr (hcover text htext) (hexamples ▸ htext) htext]
    · rw [value_of_not_mem (mt mem_examples_setValues.1 htext),
        value_of_not_mem (mt mem_examples_setValues.1 (hexamples ▸ htext))]

/-- **Gradients depend on labels and trees only, all or nothing.**  An update of the current values of a
data set in place either fails and changes nothing, or gives every example its gradient for the
ensemble.  It comes out the same, as a failure or in all values, for every data set with the same
evidence, whatever the current values are.  To repeat an update changes nothing.  And after a boosting run
that returns trees, an update for them and the loss of the run, under no stricter limit, leaves exactly
the data set that the run left, also when values were given in between. -/
theorem updateGradients_and_learn (d : Dataset) (hd : d.Reachable) :
    (∀ (trees : List LearnedTree) (loss : Loss) (limit : Option Nat),
      (∃ fault, (InPlace.updateGradients trees loss limit).run.run d = (.error fault, d)) ∨
      ∃ d', (InPlace.updateGradients trees loss limit).run.run d = (.ok (), d') ∧
        d.SameEvidence d' ∧
        (∀ text ∈ d.examples, ∃ e value, Ensemble.ofDataset trees d limit = .ok e ∧
          e.gradient d loss text = .ok (some value) ∧ d'.value? text = some value) ∧
        (InPlace.updateGradients trees loss limit).run.run d' = (.ok (), d')) ∧
    (∀ other : Dataset, other.Reachable → d.SameEvidence other →
      ∀ (trees : List LearnedTree) (loss : Loss) (limit : Option Nat), ∃ result after after',
        (InPlace.updateGradients trees loss limit).run.run d = (result, after) ∧
        (InPlace.updateGradients trees loss limit).run.run other = (result, after') ∧
        (result = .ok () → ∀ text, after'.value text = after.value text)) ∧
    ∀ (config : BoostConfig) (trees : List LearnedTree) (d' : Dataset),
      d.learn config = (.ok trees, d') → trees ≠ [] →
      ∀ between : List Operation, (∀ op ∈ between, op.GivesValues) →
      ∀ limit, LimitLE config.tree.stepLimit limit →
        (InPlace.updateGradients trees config.loss limit).run.run
          (between.foldl Operation.apply d') = (.ok (), d') := by
  refine ⟨?_, ?_, ?_⟩
  · intro trees loss limit
    exact run_updateGradients_cases hd.hasTrueValues trees loss limit
  · intro other hother hsame trees loss limit
    exact run_updateGradients_of_sameEvidence hd.hasTrueValues hother.hasTrueValues hsame trees loss
      limit
  · intro config trees d' hlearn hne between hbetween limit hle
    obtain ⟨before, hbefore, hlast⟩ := exists_updateGradients_of_learn hd hlearn hne
    have hupdate := updateGradients_mono hle hlast
    -- the values in between come after those of the last round, and both are overwritten
    obtain ⟨last, rfl⟩ := exists_setValues_of_updateGradients hlast
    obtain ⟨values, hvalues⟩ := exists_setValues_of_foldl (before.setValues last) hbetween
    rw [hvalues, ← setValues_append, InPlace.run_updateGradients,
      updateGradients_setValues hbefore.hasTrueValues hupdate]

/-- How the sizes of two persons are taken in. -/
def sizeHistory : List Operation :=
  [.setFacts ["tall(ann)"], .addExamples "size" ["size(ann) 2.0", "size(bob) 1.0"],
    .setBackground "size"
      [⟨"tall", [.typed (some .input) "person"]⟩, ⟨"size", [.typed (some .input) "person"]⟩]]

/-- The theorem for the sizes of two persons: the same problem with another value, and the boosting run,
after which values are overwritten. -/
theorem updateGradients_and_learn_sizes :
    sizeData.Reachable ∧ (sizeData.setValue "size(ann)" 7.0).Reachable ∧
    sizeData.SameEvidence (sizeData.setValue "size(ann)" 7.0) ∧
    (∃ after after',
      (InPlace.updateGradients [sizeTree] .leastSquares none).run.run sizeData = (.ok (), after) ∧
      (InPlace.updateGradients [sizeTree] .leastSquares none).run.run
        (sizeData.setValue "size(ann)" 7.0) = (.ok (), after') ∧
      ∀ text, after'.value text = after.value text) ∧
    ∃ d', sizeData.learn (sizeConfig.withLimit (some 20)) = (.ok [sizeTree], d') ∧
      (InPlace.updateGradients [sizeTree] .leastSquares none).run.run
        ((d'.setValue "size(bob)" 7.0).setValue "size(ann)" 7.0) = (.ok (), d') := by
  have hsizes : sizeData.Reachable := ⟨⟨true, false⟩, sizeHistory, rfl⟩
  obtain ⟨hcases, hsame, hlearned⟩ := updateGradients_and_learn sizeData hsizes
  have hother : (sizeData.setValue "size(ann)" 7.0).Reachable :=
    hsizes.apply (.setValue "size(ann)" 7.0)
  have hevidence := sizeData.sameEvidence_setValue "size(ann)" 7.0
  obtain ⟨d', hlearn⟩ := exists_learn_sizeData
  have hrestored := hlearned (sizeConfig.withLimit (some 20)) [sizeTree] d' hlearn (by simp)
    [.setValue "size(bob)" 7.0, .setValue "size(ann)" 7.0] (by simp [Operation.GivesValues]) none
    trivial
  obtain ⟨result, after, after', hafter, hafter', hvalues⟩ :=
    hsame _ hother hevidence [sizeTree] .leastSquares none
  have hok : result = .ok () := by
    obtain ⟨updated, hupdate⟩ := exists_updateGradients_sizeData
    have hupdate' : sizeData.updateGradients [sizeTree] .leastSquares none = .ok updated :=
      updateGradients_mono (show LimitLE (some 20) none from trivial) hupdate
    rw [InPlace.run_updateGradients, hupdate'] at hafter
    exact (congrArg Prod.fst hafter).symm
  subst hok
  exact ⟨hsizes, hother, hevidence, ⟨after, after', hafter, hafter', hvalues rfl⟩, d', hlearn,
    hrestored⟩

end Dataset

end ClauseForest
