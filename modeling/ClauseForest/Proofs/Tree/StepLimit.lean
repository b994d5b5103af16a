/-
**Step limits that are not reached**

A limit on the steps of a proof can only keep an answer back.  So whatever is computed from the
answers of proofs, and gives a result under one limit, gives the same result under any larger limit
and under none.

Main results:

* `Grower.grow_mono` — **a tree that is grown under a limit is grown under every larger limit**;
* `Dataset.learnTree_mono` — the same for learning a tree from a data set;
* `LearnedTree.valueOf_mono` — and for the value that a tree gives to an example.
-/

import ClauseForest.Proofs.Prover.StepLimit
import ClauseForest.Proofs.Tree.Routing

set_option relaxedAutoImplicit false
set_option autoImplicit false

namespace ClauseForest

theorem bind_mono {ε α β : Type} {x y : Except ε α} {f f' : α → Except ε β} {b : β}
    (hx : ∀ a, x = .ok a → y = .ok a) (hf : ∀ a, f a = .ok b → f' a = .ok b)
    (h : (x >>= f) = .ok b) : (y >>= f') = .ok b := by
  obtain ⟨a, ha, hb⟩ := bind_eq_ok_iff.1 h
  exact bind_eq_ok_iff.2 ⟨a, hx a ha, hf a hb⟩

namespace Grower

variable {g : Grower} {limit : Option Nat}

theorem divide_mono {s s' : Session}
    (hs : ∀ query answer, s.prove query = .ok answer → s'.prove query = .ok answer)
    {queries : List (String × Term)} {sides : List String × List String}
    (h : divide s queries = .ok sides) : divide s' queries = .ok sides := by
  induction queries generalizing sides with
  | nil => exact h
  | cons q queries ih =>
      refine bind_mono (hs q.2) (fun holds hrest => ?_) h
      exact bind_mono (fun _ => ih) (fun _ => id) hrest

theorem split_mono (hle : LimitLE g.limit limit) {clause : Rule} {queries : List (String × Term)}
    {test : String} {s : Split} (h : g.split clause queries test = .ok s) :
    { g with limit }.split clause queries test = .ok s := by
  refine bind_mono (fun _ => id) (fun term hdivide => ?_) h
  exact bind_mono (fun _ => divide_mono fun _ _ => Session.prove_mono hle) (fun _ => id) hdivide

theorem bestSplit_mono (hle : LimitLE g.limit limit) {clause : Rule} {examples tests : List String}
    {best : Option Split} (h : g.bestSplit clause examples tests = .ok best) :
    { g with limit }.bestSplit clause examples tests = .ok best := by
  refine bind_mono (fun _ => id) (fun queries hsplits => ?_) h
  refine bind_mono (fun splits hmap => ?_) (fun _ => id) hsplits
  exact mapM_eq_ok_iff.2 ((mapM_eq_ok_iff.1 hmap).imp fun _ _ => split_mono hle)

theorem expand_mono (hle : LimitLE g.limit limit) {node : Node} {below : Option (List Node)}
    (h : g.expand node = .ok below) : { g with limit }.expand node = .ok below := by
  unfold expand at h ⊢
  have hpure : { g with limit }.isPure node = g.isPure node := rfl
  rw [hpure]
  split at h
  · rename_i hp
    rw [if_pos hp]
    exact h
  · rename_i hp
    rw [if_neg hp]
    refine bind_mono (fun _ => id) (fun tests hbest => ?_) h
    exact bind_mono (fun _ => bestSplit_mono hle) (fun _ => id) hbest

theorem expandAll_mono (hle : LimitLE g.limit limit) {nodes : List Node}
    {level : List Node × List Node} (h : g.expandAll nodes = .ok level) :
    { g with limit }.expandAll nodes = .ok level := by
  induction nodes generalizing level with
  | nil => exact h
  | cons node nodes ih =>
      refine bind_mono (fun _ => expand_mono hle) (fun expanded hrest => ?_) h
      exact bind_mono (fun _ => ih) (fun _ => id) hrest

/-- A tree that is grown under a limit is grown under every larger limit. -/
theorem grow_mono (hle : LimitLE g.limit limit) {k : Nat} {nodes leaves : List Node}
    (h : g.grow k nodes = .ok leaves) : { g with limit }.grow k nodes = .ok leaves := by
  induction k generalizing nodes leaves with
  | zero => cases nodes <;> exact h
  | succ k ih =>
      cases nodes with
      | nil => exact h
      | cons node nodes =>
          refine bind_mono (fun _ => expandAll_mono hle) (fun level hrest => ?_) h
          exact bind_mono (fun _ => ih) (fun _ => id) hrest

/-- A tree that is grown under some limit is grown without one. -/
theorem grow_of_limited {n : Nat} (hg : g.limit = none) {k : Nat} {nodes leaves : List Node}
    (h : { g with limit := some n }.grow k nodes = .ok leaves) : g.grow k nodes = .ok leaves := by
  have hle : LimitLE (some n) g.limit := by
    rw [hg]
    trivial
  exact grow_mono (g := { g with limit := some n }) hle h

end Grower

variable {limit limit' : Option Nat}

/-! ### Learning a tree -/

/-- The same parameters with another limit. -/
def TreeConfig.withLimit (config : TreeConfig) (limit : Option Nat) : TreeConfig :=
  { config with stepLimit := limit }

/-- A tree that is learned under a limit is learned under every larger limit. -/
theorem Dataset.learnTree_mono (hle : LimitLE limit limit') {d : Dataset} {config : TreeConfig}
    {tree : LearnedTree} (h : d.learnTree (config.withLimit limit) = .ok tree) :
    d.learnTree (config.withLimit limit') = .ok tree := by
  obtain ⟨g, hgrower, hgrown⟩ := bind_eq_ok_iff.1 h
  obtain ⟨rules, target, hrules, htarget, rfl⟩ := grower_eq_ok_iff.1 hgrower
  have hgrower' : d.grower (config.withLimit limit') = .ok ⟨d, .ofList rules, target, limit'⟩ :=
    grower_eq_ok_iff.2 ⟨rules, target, hrules, htarget, rfl⟩
  refine bind_eq_ok_iff.2 ⟨_, hgrower', ?_⟩
  exact bind_mono (fun _ hnodes => Grower.grow_mono hle hnodes) (fun _ => id) hgrown

/-! ### The values of a tree -/

namespace LearnedTree

variable {facts : RuleBase} {query : Term}

theorem applies_mono (hle : LimitLE limit limit') {leaf : Leaf} {answer : Bool}
    (h : applies facts query limit leaf = .ok answer) :
    applies facts query limit' leaf = .ok answer := by
  unfold applies at h ⊢
  split at h
  · rename_i hbare
    rw [if_pos hbare]
    exact h
  · rename_i hbare
    rw [if_neg hbare]
    exact Session.prove_mono hle h

theorem firstValue_mono (hle : LimitLE limit limit') {leaves : List Leaf} {value : Option Float}
    (h : firstValue facts query limit leaves = .ok value) :
    firstValue facts query limit' leaves = .ok value := by
  induction leaves with
  | nil => exact h
  | cons leaf leaves ih =>
      refine bind_mono (fun _ => applies_mono hle) (fun holds hrest => ?_) h
      cases holds with
      | true => exact hrest
      | false => exact ih hrest

/-- A value that a tree gives under a limit is given under every larger limit. -/
theorem valueOf_mono (hle : LimitLE limit limit') {tree : LearnedTree} {value : Option Float}
    (h : tree.valueOf facts query limit = .ok value) :
    tree.valueOf facts query limit' = .ok value :=
  firstValue_mono hle h

end LearnedTree

end ClauseForest
