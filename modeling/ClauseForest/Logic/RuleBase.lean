/-
**Rule bases**

A rule base is a list of rules in the order in which they were added.  Only rules whose head has the
predicate and the number of arguments of a goal can ever match it, so the rules are also kept in
groups by these two.

Main definitions:

* `Term.key` — the predicate and the number of arguments of a term;
* `RuleBase` — rules in order, with their groups;
* `RuleBase.insert`, `RuleBase.ofList`, `RuleBase.parse` — building a rule base;
* `RuleBase.matching` — the rules that a goal may match, in order.
-/

import ClauseForest.Logic.Rule

set_option relaxedAutoImplicit false
set_option autoImplicit false

namespace ClauseForest

/-- What a rule head must share with a goal to match it: predicate and number of arguments. -/
abbrev HeadKey := String × Nat

/-- The key of a term. -/
def Term.key (t : Term) : HeadKey := (t.predicate, t.arity)

/-- Rules in the order in which they were added, and the same rules in groups by head. -/
structure RuleBase where
  /-- All rules, in order. -/
  rules : Array Rule
  /-- For each key of a head, the rules with that key, in order. -/
  groups : List (HeadKey × Array Rule)
deriving Inhabited

namespace RuleBase

/-- The rule base without rules. -/
def empty : RuleBase := ⟨#[], []⟩

/-- Adds a rule at the end of the group of its key, which is opened if there is none. -/
def addToGroup (rule : Rule) : List (HeadKey × Array Rule) → List (HeadKey × Array Rule)
  | [] => [(rule.head.key, #[rule])]
  | (key, group) :: others =>
    if key = rule.head.key then (key, group.push rule) :: others
    else (key, group) :: addToGroup rule others

/-- Adds a rule at the end. -/
def insert (base : RuleBase) (rule : Rule) : RuleBase :=
  ⟨base.rules.push rule, addToGroup rule base.groups⟩

/-- The rule base of a list of rules. -/
def ofList (rules : List Rule) : RuleBase := rules.foldl insert empty

/-- Reads a rule from each text; the first text that is no rule is the fault. -/
def parse (texts : List String) : Except SyntaxError RuleBase :=
  ofList <$> texts.mapM Rule.parse

/-- The number of rules. -/
def size (base : RuleBase) : Nat := base.rules.size

/-- Whether there are no rules. -/
def isEmpty (base : RuleBase) : Bool := base.rules.isEmpty

/-- The rules whose head has the predicate and the number of arguments of a goal, in order. -/
def matching (base : RuleBase) (goal : Term) : List Rule :=
  ((base.groups.lookup goal.key).map Array.toList).getD []

@[simp] theorem matching_empty (goal : Term) : empty.matching goal = [] := rfl

theorem lookup_addToGroup (rule : Rule) (key : HeadKey) (groups : List (HeadKey × Array Rule)) :
    ((addToGroup rule groups).lookup key).map Array.toList =
      if key = rule.head.key then
        some (((groups.lookup key).map Array.toList).getD [] ++ [rule])
      else (groups.lookup key).map Array.toList := by
  induction groups with
  | nil =>
    by_cases h : key = rule.head.key
    · simp [addToGroup, h]
    · simp [addToGroup, List.lookup_cons, h, beq_eq_false_iff_ne.2 h]
  | cons entry others ih =>
    obtain ⟨k, group⟩ := entry
    by_cases hk : k = rule.head.key
    · by_cases h : key = rule.head.key
      · simp [addToGroup, hk, h]
      · simp [addToGroup, List.lookup_cons, hk, h, beq_eq_false_iff_ne.2 h]
    · by_cases h : key = k
      · subst h
        simp [addToGroup, hk]
      · simp [addToGroup, List.lookup_cons, hk, beq_eq_false_iff_ne.2 h, ih]

/-- A new rule comes last among those that a goal of its key may match, and nowhere else. -/
theorem matching_insert (base : RuleBase) (rule : Rule) (goal : Term) :
    (base.insert rule).matching goal =
      if goal.key = rule.head.key then base.matching goal ++ [rule] else base.matching goal := by
  unfold matching insert
  rw [lookup_addToGroup]
  split <;> rfl

end RuleBase

end ClauseForest
