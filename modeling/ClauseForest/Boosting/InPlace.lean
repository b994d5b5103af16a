/-
**Updating values in place**

Gradients replace the current values of a data set.  As a computation on a data set that changes as it
goes, an update has two parts: the gradients are found one after another, and then they are stored one
after another.  A proof that fails ends the computation where it is.

While the gradients are found nothing changes, so they are those of the data set as it was, which is how
`Dataset.updateGradients` is defined.

Main definitions:

* `Ensemble.gradients` — the gradients of examples of a data set;
* `Dataset.InPlace` — computations that may change a data set and may fail;
* `Dataset.InPlace.collect`, `Dataset.InPlace.store` — the two parts of an update;
* `Dataset.InPlace.updateGradients` — gradients in place.

Main results:

* `Dataset.InPlace.run_collect` — nothing changes while gradients are found;
* `Dataset.InPlace.run_updateGradients` — **all or nothing**: an update that fails leaves the data set as
  it was.
-/

import ClauseForest.Boosting.Ensemble

set_option relaxedAutoImplicit false
set_option autoImplicit false

namespace ClauseForest

/-- The gradients of those examples among some texts that have one. -/
def Ensemble.gradients (e : Ensemble) (d : Dataset) (loss : Loss) (texts : List String) :
    Except ProofError (List (String × Float)) :=
  List.filterMap id <$> texts.mapM fun text => do
    return (← e.gradient d loss text).map fun value => (text, value)

namespace Dataset

/-- An update stores the gradients of all examples. -/
theorem updateGradients_eq (d : Dataset) (trees : List LearnedTree) (loss : Loss)
    (limit : Option Nat) : d.updateGradients trees loss limit =
      (Ensemble.ofDataset trees d limit >>= fun e => d.setValues <$> e.gradients d loss d.examples) := by
  unfold updateGradients Ensemble.gradients
  refine bind_congr fun e => ?_
  rw [Functor.map_map, bind_pure_comp]

/-- A computation that may change a data set and may fail. -/
abbrev InPlace (α : Type) := ExceptT ProofError (StateM Dataset) α

namespace InPlace

/-- Goes on with a result, or fails. -/
def ofExcept {α : Type} (result : Except ProofError α) : InPlace α := ExceptT.mk (pure result)

/-- Finds the gradients of examples, one after another.  An example may have none. -/
def collect (e : Ensemble) (loss : Loss) : List String → InPlace (List (String × Float))
  | [] => return []
  | text :: texts => do
    let gradient ← ofExcept (e.gradient (← get) loss text)
    let others ← collect e loss texts
    match gradient with
    | some value => return (text, value) :: others
    | none => return others

/-- Stores values, one after another. -/
def store : List (String × Float) → InPlace Unit
  | [] => return ()
  | (text, value) :: values => do
    modify fun d => d.setValue text value
    store values

/-- Replaces the current value of every example by its gradient. -/
def updateGradients (trees : List LearnedTree) (loss : Loss) (limit : Option Nat) : InPlace Unit := do
  let e ← ofExcept (Ensemble.ofDataset trees (← get) limit)
  store (← collect e loss (← get).examples)

/-! ### What runs change -/

/-- A computation goes on with the data set as the one before it left it, unless that one failed. -/
theorem run_bind {α β : Type} (x : InPlace α) (f : α → InPlace β) (d : Dataset) :
    (x >>= f).run.run d =
      match x.run.run d with
      | (.ok a, d') => (f a).run.run d'
      | (.error e, d') => (.error e, d') := by
  show (ExceptT.bindCont f (x.run.run d).1).run (x.run.run d).2 = _
  split <;> rename_i h <;> rw [h] <;> rfl

theorem run_ofExcept {α : Type} (result : Except ProofError α) (d : Dataset) :
    (ofExcept result).run.run d = (result, d) := rfl

theorem run_get (d : Dataset) : (get : InPlace Dataset).run.run d = (.ok d, d) := rfl

/-- Nothing changes while gradients are found, and they are those for the data set as it is. -/
theorem run_collect (e : Ensemble) (loss : Loss) (texts : List String) (d : Dataset) :
    (collect e loss texts).run.run d = (e.gradients d loss texts, d) := by
  induction texts with
  | nil => rfl
  | cons text texts ih =>
      rw [Ensemble.gradients] at ih ⊢
      rw [collect, run_bind, run_get, List.mapM_cons]
      dsimp only
      rw [run_bind, run_ofExcept]
      cases e.gradient d loss text with
      | error fault => rfl
      | ok gradient =>
          dsimp only
          rw [run_bind, ih]
          cases texts.mapM fun text => do
            return (← e.gradient d loss text).map fun value => (text, value) with
          | error fault => cases gradient <;> rfl
          | ok others => cases gradient <;> rfl

theorem run_store (values : List (String × Float)) (d : Dataset) :
    (store values).run.run d = (.ok (), d.setValues values) := by
  induction values generalizing d with
  | nil => rfl
  | cons entry values ih => exact ih (d.setValue entry.1 entry.2)

/-- **All or nothing**: gradients that are found are stored, and otherwise the data set stays as it
was. -/
theorem run_updateGradients (trees : List LearnedTree) (loss : Loss) (limit : Option Nat)
    (d : Dataset) : (updateGradients trees loss limit).run.run d =
      match d.updateGradients trees loss limit with
      | .ok d' => (.ok (), d')
      | .error e => (.error e, d) := by
  rw [updateGradients, run_bind, run_get, updateGradients_eq]
  dsimp only
  rw [run_bind, run_ofExcept]
  cases Ensemble.ofDataset trees d limit with
  | error fault => rfl
  | ok e =>
      dsimp only
      rw [run_bind, run_get]
      dsimp only
      rw [run_bind, run_collect]
      show _ = match d.setValues <$> e.gradients d loss d.examples with
        | .ok d' => (Except.ok (), d')
        | .error e => (Except.error e, d)
      cases e.gradients d loss d.examples with
      | error fault => rfl
      | ok values => exact run_store values d

end InPlace

end Dataset

end ClauseForest
