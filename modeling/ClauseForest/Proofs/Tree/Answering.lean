/-
**The leaf that answers**

The leaves of a tree are tried in order, and the first one that applies gives the value.  They are
sorted by the number of their tests, those with most tests first, and the sorting is stable.  So the
leaf that answers has more tests than every leaf before it in the original list that applies as
well, and no fewer than every such leaf after it; and there is only one leaf like this.

Main definitions:

* `LearnedTree.answering` — the first leaf that applies;
* `LearnedTree.settles` — a leaf after which no other is looked at.

Main results:

* `LearnedTree.firstValue_eq_find?` — the value comes from the first leaf that settles the matter;
* `LearnedTree.valueOf_eq` — the value of a tree is that of the leaf that answers;
* `LearnedTree.filter_ofLeaves` — sorting keeps the order of equally specific leaves;
* `LearnedTree.answering_ofLeaves_eq_some_iff` — **the leaf that answers is the most specific one
  that applies**, the earliest if there are several.
-/

import ClauseForest.Proofs.Outcome
import ClauseForest.Tree.Basic
import Mathlib.Data.List.Find

set_option relaxedAutoImplicit false
set_option autoImplicit false

namespace ClauseForest.LearnedTree

/-! ### Values -/

/-- The first leaf that applies to an example. -/
def answering (tree : LearnedTree) (facts : RuleBase) (query : Term) (limit : Option Nat) :
    Option Leaf :=
  tree.leaves.find? fun leaf => (applies facts query limit leaf).toOption = some true

/-- No leaf is looked at after this one: it applies, or its proof gives no answer. -/
def settles (facts : RuleBase) (query : Term) (limit : Option Nat) (leaf : Leaf) : Bool :=
  (applies facts query limit leaf).toOption ≠ some false

/-- The value comes from the first leaf that does not simply fail, if its proof gives an answer. -/
theorem firstValue_eq_find? {facts : RuleBase} {query : Term} {limit : Option Nat}
    (leaves : List Leaf) : firstValue facts query limit leaves =
    match leaves.find? (settles facts query limit) with
    | none => .ok none
    | some leaf => (fun _ => some leaf.value) <$> applies facts query limit leaf := by
  induction leaves with
  | nil => rfl
  | cons leaf leaves ih =>
      rw [firstValue, List.find?_cons, settles]
      rcases happlies : applies facts query limit leaf with e | answer
      · change _ = (fun _ => some leaf.value) <$> applies facts query limit leaf
        rw [happlies]
        rfl
      · cases answer with
        | true =>
            change _ = (fun _ => some leaf.value) <$> applies facts query limit leaf
            rw [happlies]
            rfl
        | false => exact ih

/-- The leaf that answers applies. -/
theorem applies_of_answering {tree : LearnedTree} {facts : RuleBase} {query : Term}
    {limit : Option Nat} {leaf : Leaf} (h : tree.answering facts query limit = some leaf) :
    applies facts query limit leaf = .ok true := by
  unfold answering at h
  have hfound := List.find?_some h
  exact toOption_eq_some_iff.1 (of_decide_eq_true hfound)

/-- The value of a tree is that of the leaf that answers, if every proof gives an answer. -/
theorem valueOf_eq {tree : LearnedTree} {facts : RuleBase} {query : Term} {limit : Option Nat}
    (h : ∀ leaf ∈ tree.leaves, ∃ answer, applies facts query limit leaf = .ok answer) :
    tree.valueOf facts query limit =
      .ok ((tree.answering facts query limit).map Leaf.value) := by
  -- if every proof gives an answer, a leaf settles the matter just if it applies
  have hsame : tree.leaves.find? (settles facts query limit) = tree.answering facts query limit := by
    refine List.find?_congr fun leaf hleaf => ?_
    obtain ⟨answer, hanswer⟩ := h leaf hleaf
    cases answer <;> simp [settles, hanswer, Except.toOption]
  rw [valueOf, firstValue_eq_find?, hsame]
  cases hfind : tree.answering facts query limit with
  | none => rfl
  | some leaf =>
      simp only [applies_of_answering hfind]
      rfl

/-- If a leaf applies, some leaf answers. -/
theorem exists_answering {tree : LearnedTree} {facts : RuleBase} {query : Term} {limit : Option Nat}
    {leaf : Leaf} (hleaf : leaf ∈ tree.leaves) (h : applies facts query limit leaf = .ok true) :
    ∃ found, tree.answering facts query limit = some found := by
  refine Option.isSome_iff_exists.1 (List.find?_isSome.2 ⟨leaf, hleaf, ?_⟩)
  rw [h]
  rfl

/-! ### Sorting -/

theorem perm_ofLeaves (leaves : List Leaf) : (ofLeaves leaves).leaves.Perm leaves :=
  List.mergeSort_perm _ _

theorem mem_ofLeaves {leaf : Leaf} {leaves : List Leaf} :
    leaf ∈ (ofLeaves leaves).leaves ↔ leaf ∈ leaves := (perm_ofLeaves leaves).mem_iff

theorem specificity_trans (a b c : Leaf) (hab : decide (b.specificity ≤ a.specificity) = true)
    (hbc : decide (c.specificity ≤ b.specificity) = true) :
    decide (c.specificity ≤ a.specificity) = true := by
  rw [decide_eq_true_iff] at *
  exact Nat.le_trans hbc hab

theorem specificity_total (a b : Leaf) :
    (decide (b.specificity ≤ a.specificity) || decide (a.specificity ≤ b.specificity)) = true := by
  rw [Bool.or_eq_true, decide_eq_true_iff, decide_eq_true_iff]
  exact Nat.le_total _ _

theorem pairwise_ofLeaves (leaves : List Leaf) :
    (ofLeaves leaves).leaves.Pairwise fun a b => b.specificity ≤ a.specificity := by
  have h : (ofLeaves leaves).leaves.Pairwise
      fun a b => decide (b.specificity ≤ a.specificity) = true :=
    List.pairwise_mergeSort specificity_trans specificity_total leaves
  simpa using h

/-- Sorting keeps the order of equally specific leaves. -/
theorem filter_ofLeaves (leaves : List Leaf) (k : Nat) :
    (ofLeaves leaves).leaves.filter (fun leaf => leaf.specificity = k) =
      leaves.filter fun leaf => leaf.specificity = k := by
  have hequal : (leaves.filter fun leaf => leaf.specificity = k).Pairwise
      fun a b => (decide (b.specificity ≤ a.specificity) : Bool) := by
    refine List.pairwise_of_forall_mem_list fun a ha b hb => ?_
    have hka := (List.mem_filter.1 ha).2
    have hkb := (List.mem_filter.1 hb).2
    simp at hka hkb ⊢
    omega
  have hsub : (leaves.filter fun leaf => leaf.specificity = k).Sublist (ofLeaves leaves).leaves :=
    List.sublist_mergeSort specificity_trans specificity_total hequal List.filter_sublist
  have hfilter := hsub.filter fun leaf => leaf.specificity = k
  rw [List.filter_filter] at hfilter
  simp only [Bool.and_self] at hfilter
  have hlength := ((perm_ofLeaves leaves).filter fun leaf => leaf.specificity = k).length_eq
  exact (hfilter.eq_of_length hlength.symm).symm

/-! ### The leaf that answers -/

section

variable {p : Leaf → Bool} {leaves : List Leaf} {leaf : Leaf}

/-- No leaf with the property is more specific than the first one. -/
theorem specificity_le_of_find? (h : (ofLeaves leaves).leaves.find? p = some leaf) {other : Leaf}
    (hother : other ∈ leaves) (hp : p other = true) : other.specificity ≤ leaf.specificity := by
  obtain ⟨-, before, after, heq, hbefore⟩ := List.find?_eq_some_iff_append.1 h
  have hmem := mem_ofLeaves.2 hother
  rw [heq] at hmem
  rcases List.mem_append.1 hmem with hmem | hmem
  · exact absurd hp (by simpa using hbefore other hmem)
  · rcases List.mem_cons.1 hmem with rfl | hmem
    · exact Nat.le_refl _
    · have hsorted := pairwise_ofLeaves leaves
      rw [heq, List.pairwise_append] at hsorted
      exact List.rel_of_pairwise_cons hsorted.2.1 hmem

/-- The first leaf with the property is the first among the leaves that are as specific. -/
theorem find?_of_find?_ofLeaves (h : (ofLeaves leaves).leaves.find? p = some leaf) :
    leaves.find? (fun other => p other ∧ other.specificity = leaf.specificity) = some leaf := by
  obtain ⟨hp, before, after, heq, hbefore⟩ := List.find?_eq_some_iff_append.1 h
  have hsorted : ((ofLeaves leaves).leaves.filter
      fun other => other.specificity = leaf.specificity).find? p = some leaf := by
    rw [List.find?_filter, List.find?_eq_some_iff_append]
    refine ⟨by simp [hp], before, after, heq, fun other hother => ?_⟩
    simp [by simpa using hbefore other hother]
  rw [filter_ofLeaves, List.find?_filter] at hsorted
  simpa [and_comm] using hsorted

theorem find?_ofLeaves_eq_some_iff :
    (ofLeaves leaves).leaves.find? p = some leaf ↔
      p leaf = true ∧ ∃ before after, leaves = before ++ leaf :: after ∧
        (∀ other ∈ before, p other = true → other.specificity < leaf.specificity) ∧
          ∀ other ∈ after, p other = true → other.specificity ≤ leaf.specificity := by
  constructor
  · intro h
    obtain ⟨hp, before, after, heq, hbefore⟩ :=
      List.find?_eq_some_iff_append.1 (find?_of_find?_ofLeaves h)
    simp only [Bool.decide_and, Bool.and_eq_true, decide_eq_true_eq] at hp
    refine ⟨hp.1, before, after, heq, fun other hother hpo => ?_, fun other hother hpo => ?_⟩
    · have hle := specificity_le_of_find? h (by simp [heq, hother]) hpo
      have hne : other.specificity ≠ leaf.specificity := by
        simpa [hpo] using hbefore other hother
      omega
    · exact specificity_le_of_find? h (by simp [heq, hother]) hpo
  · rintro ⟨hp, before, after, heq, hbefore, hafter⟩
    cases hfind : (ofLeaves leaves).leaves.find? p with
    | none =>
        have hmem : leaf ∈ (ofLeaves leaves).leaves := mem_ofLeaves.2 (by simp [heq])
        exact absurd hp (List.find?_eq_none.1 hfind leaf hmem)
    | some found =>
        have hle : leaf.specificity ≤ found.specificity :=
          specificity_le_of_find? hfind (by simp [heq]) hp
        have hfound := find?_of_find?_ofLeaves hfind
        -- whatever answers is no more specific than the leaf, so both are first of their kind
        have hge : found.specificity ≤ leaf.specificity := by
          have hpf := List.find?_some hfind
          have hmem := mem_ofLeaves.1 (List.mem_of_find?_eq_some hfind)
          rw [heq] at hmem
          rcases List.mem_append.1 hmem with hmem | hmem
          · exact Nat.le_of_lt (hbefore found hmem hpf)
          · rcases List.mem_cons.1 hmem with rfl | hmem
            · exact Nat.le_refl _
            · exact hafter found hmem hpf
        have hequal : leaf.specificity = found.specificity := by omega
        have hfirst : leaves.find? (fun other => p other ∧ other.specificity = found.specificity) =
            some leaf := by
          refine List.find?_eq_some_iff_append.2 ⟨by simp [hp, hequal], before, after, heq, ?_⟩
          intro other hother
          have hlt := hbefore other hother
          cases hpo : p other with
          | false => simp
          | true =>
              have hlt := hlt hpo
              simp
              omega
        exact hfound.symm.trans hfirst

end

/-- The leaf that answers is the most specific one that applies, the earliest among equals. -/
theorem answering_ofLeaves_eq_some_iff {facts : RuleBase} {query : Term} {limit : Option Nat}
    {leaves : List Leaf} {leaf : Leaf} :
    (ofLeaves leaves).answering facts query limit = some leaf ↔
      applies facts query limit leaf = .ok true ∧
        ∃ before after, leaves = before ++ leaf :: after ∧
          (∀ other ∈ before, applies facts query limit other = .ok true →
            other.specificity < leaf.specificity) ∧
          ∀ other ∈ after, applies facts query limit other = .ok true →
            other.specificity ≤ leaf.specificity := by
  unfold answering
  rw [find?_ofLeaves_eq_some_iff]
  simp only [decide_eq_true_eq, toOption_eq_some_iff]

/-- No leaf that applies is more specific than the one that answers. -/
theorem specificity_le_of_answering {facts : RuleBase} {query : Term} {limit : Option Nat}
    {leaves : List Leaf} {leaf other : Leaf}
    (h : (ofLeaves leaves).answering facts query limit = some leaf) (hother : other ∈ leaves)
    (happlies : applies facts query limit other = .ok true) :
    other.specificity ≤ leaf.specificity :=
  specificity_le_of_find? h hother (decide_eq_true (toOption_eq_some_iff.2 happlies))

end ClauseForest.LearnedTree
