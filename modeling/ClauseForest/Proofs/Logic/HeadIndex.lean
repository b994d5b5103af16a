/-
**Rules found through an index**

Rules can be kept in one vector, in the order in which they were added, with an index beside it that
holds no rules but only positions: for each key of a head, the places at which the rules with this key
stand in the vector.  A new rule is written behind all others, and its place behind those of its key.

Such an index is right only as long as a place means the rule for which it was noted down.  It does,
since the vector grows at its end only.  So the rules that are found for a goal are those of a rule base
that keeps the rules themselves in groups, in the same order and as often.

Main definitions:

* `HeadIndex` — a vector of rules, and the places of the rules of each key;
* `HeadIndex.insert`, `HeadIndex.ofList` — building it;
* `HeadIndex.matching` — the rules that a goal may match, in order.

Main results:

* `HeadIndex.matching_insert` — a new rule comes last among those of its key, and nowhere else;
* `HeadIndex.matching_ofList` — **the index finds what the groups of a rule base hold**.
-/

import ClauseForest.Logic.RuleBase
import Mathlib.Data.List.Infix

set_option relaxedAutoImplicit false
set_option autoImplicit false

namespace ClauseForest

/-- Rules in the order in which they were added, and the places of the rules of each key. -/
structure HeadIndex where
  /-- All rules, in order. -/
  rules : Array Rule
  /-- For each key of a head, the places of the rules with that key, in order. -/
  places : Std.HashMap HeadKey (Array Nat)
  /-- There is a rule at every place. -/
  inside : ∀ key, ∀ i ∈ places.getD key #[], i < rules.size

namespace HeadIndex

/-- The index without rules. -/
def empty : HeadIndex where
  rules := #[]
  places := ∅
  inside := by simp

/-- Adds a rule behind all others, and its place behind those of its key. -/
def insert (index : HeadIndex) (rule : Rule) : HeadIndex where
  rules := index.rules.push rule
  places := index.places.insert rule.head.key
    ((index.places.getD rule.head.key #[]).push index.rules.size)
  inside := by
    intro key i hi
    rw [Std.HashMap.getD_insert] at hi
    rw [Array.size_push]
    split at hi
    · rcases Array.mem_push.1 hi with hi | rfl
      · exact Nat.lt_succ_of_lt (index.inside _ i hi)
      · exact Nat.lt_succ_self _
    · exact Nat.lt_succ_of_lt (index.inside key i hi)

/-- The index of a list of rules. -/
def ofList (rules : List Rule) : HeadIndex := rules.foldl insert empty

/-- The rules at some places of a vector. -/
def rulesAt (rules : Array Rule) (places : List Nat) (h : ∀ i ∈ places, i < rules.size) : List Rule :=
  places.pmap (fun i (hi : i < rules.size) => rules[i]) h

/-- The rules whose head has the predicate and the number of arguments of a goal, in order. -/
def matching (index : HeadIndex) (goal : Term) : List Rule :=
  rulesAt index.rules (index.places.getD goal.key #[]).toList fun i hi =>
    index.inside goal.key i (Array.mem_toList_iff.1 hi)

/-- A rule that is added moves no other. -/
theorem rulesAt_push (rules : Array Rule) (rule : Rule) {places : List Nat}
    (h : ∀ i ∈ places, i < rules.size) (h' : ∀ i ∈ places, i < (rules.push rule).size) :
    rulesAt (rules.push rule) places h' = rulesAt rules places h :=
  List.pmap_congr_left places fun _ _ _ hi => Array.getElem_push_lt hi

/-- A new rule comes last among those of its key, and nowhere else. -/
theorem matching_insert (index : HeadIndex) (rule : Rule) (goal : Term) :
    (index.insert rule).matching goal =
      if goal.key = rule.head.key then index.matching goal ++ [rule] else index.matching goal := by
  have hplaces : (index.insert rule).places.getD goal.key #[] =
      if goal.key = rule.head.key then (index.places.getD goal.key #[]).push index.rules.size
      else index.places.getD goal.key #[] := by
    show (index.places.insert rule.head.key _).getD goal.key #[] = _
    rw [Std.HashMap.getD_insert]
    by_cases hkey : goal.key = rule.head.key
    · simp [hkey]
    · simp [hkey, Ne.symm hkey]
  unfold matching
  split
  · rename_i hkey
    simp only [hplaces, if_pos hkey, Array.toList_push]
    unfold rulesAt
    rw [List.pmap_append]
    refine congrArg₂ (· ++ ·) (rulesAt_push index.rules rule _ _) ?_
    show [(index.rules.push rule)[index.rules.size]] = [rule]
    rw [Array.getElem_push_eq]
  · rename_i hkey
    simp only [hplaces, if_neg hkey]
    exact rulesAt_push index.rules rule _ _

/-- The index finds what the groups of a rule base hold, if it did so before. -/
theorem matching_foldl_insert (rules : List Rule) {index : HeadIndex} {base : RuleBase} {goal : Term}
    (h : index.matching goal = base.matching goal) :
    (rules.foldl insert index).matching goal =
      (rules.foldl RuleBase.insert base).matching goal := by
  induction rules generalizing index base with
  | nil => exact h
  | cons rule rules ih =>
      refine ih ?_
      rw [matching_insert, RuleBase.matching_insert, h]

/-- The index finds what the groups of a rule base hold. -/
theorem matching_ofList (rules : List Rule) (goal : Term) :
    (ofList rules).matching goal = (RuleBase.ofList rules).matching goal := by
  refine matching_foldl_insert rules ?_
  simp [matching, rulesAt, empty]

end HeadIndex

end ClauseForest
