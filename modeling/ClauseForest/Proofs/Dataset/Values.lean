/-
**Values and the problem**

The current values of the examples change all the time while trees are learned.  Giving an example a
value changes nothing else: the facts, the target, the declarations, the advice and the kind of the
problem stay what they are.

Main definitions:

* `Dataset.SameProblem` — two data sets that differ in their examples and values at most.

Main results:

* `Dataset.sameProblem_setValues` — **giving values keeps the problem**.
-/

import ClauseForest.Proofs.Dataset.Background

set_option relaxedAutoImplicit false
set_option autoImplicit false

namespace ClauseForest.Dataset

/-- Two data sets describe the same problem, perhaps with other examples and values. -/
structure SameProblem (d d' : Dataset) : Prop where
  options : d'.options = d.options
  facts : d'.facts = d.facts
  advice : d'.advice = d.advice
  target : d'.target = d.target
  literals : d'.literals = d.literals
  variableTypes : d'.variableTypes = d.variableTypes

theorem SameProblem.refl (d : Dataset) : d.SameProblem d := ⟨rfl, rfl, rfl, rfl, rfl, rfl⟩

theorem SameProblem.trans {d d' d'' : Dataset} (h : d.SameProblem d') (h' : d'.SameProblem d'') :
    d.SameProblem d'' where
  options := h'.options.trans h.options
  facts := h'.facts.trans h.facts
  advice := h'.advice.trans h.advice
  target := h'.target.trans h.target
  literals := h'.literals.trans h.literals
  variableTypes := h'.variableTypes.trans h.variableTypes

theorem sameProblem_setValue (d : Dataset) (text : String) (value : Float) :
    d.SameProblem (d.setValue text value) := by
  unfold setValue
  split
  · split
    · exact ⟨rfl, rfl, rfl, rfl, rfl, rfl⟩
    · exact .refl d
  · split
    · exact ⟨rfl, rfl, rfl, rfl, rfl, rfl⟩
    · split
      · exact ⟨rfl, rfl, rfl, rfl, rfl, rfl⟩
      · exact .refl d

/-- Giving values keeps the problem. -/
theorem sameProblem_setValues (d : Dataset) (values : List (String × Float)) :
    d.SameProblem (d.setValues values) := by
  unfold setValues
  induction values generalizing d with
  | nil => exact .refl d
  | cons entry values ih => exact (d.sameProblem_setValue entry.1 entry.2).trans (ih _)

namespace SameProblem

variable {d d' : Dataset}

theorem hasBackground (h : d.SameProblem d') (hd : d.HasBackground) : d'.HasBackground := by
  obtain ⟨before, target, background, hread, hfault, htarget, hliterals, htypes⟩ := hd
  exact ⟨before, target, background, hread, hfault, h.target.trans htarget,
    h.literals.trans hliterals, h.variableTypes.trans htypes⟩

theorem usesAdvice (h : d.SameProblem d') : d'.usesAdvice = d.usesAdvice := by
  unfold Dataset.usesAdvice
  rw [h.options]

end SameProblem

end ClauseForest.Dataset
