/-
**Types of the variables of a clause**

The types of a clause are recorded from two sources, and the first record of a token stands.  So a
token of the head has the type that the target gives it, if the target gives it one.  Any other
variable has the type of its first occurrence in the body in a place to which the declarations give
a type.

Main definitions:

* `LanguageBias.occurrences` — the typed places of a literal;
* `LanguageBias.recordedType?` — the type of a token, said without a table.

Main results:

* `VariableTypes.get?_foldl_insert` — the first record stands;
* `LanguageBias.get?_clauseTypes` — **the table of a clause holds the recorded types**;
* `pairwise_idxOf_eraseDups`, `Rule.mem_variables_iff` — the variables, in the order in which they
  first appear.
-/

import ClauseForest.Refinement.Candidates
import Mathlib.Data.List.Basic
import Mathlib.Data.List.Induction

set_option relaxedAutoImplicit false
set_option autoImplicit false

namespace ClauseForest

/-! ### Records -/

/-- Pairs that are made of tokens are looked up by the token. -/
theorem lookup_filterMap (f : String → Option String) (tokens : List String) (token : String) :
    (tokens.filterMap fun var => (f var).map (var, ·)).lookup token =
      if token ∈ tokens then f token else none := by
  induction tokens with
  | nil => rfl
  | cons var tokens ih =>
      rcases eq_or_ne token var with rfl | hne
      · cases hf : f token with
        | none => simp [hf, ih]
        | some type => simp [hf]
      · have hlookup : (token == var) = false := beq_eq_false_iff_ne.2 hne
        cases hf : f var <;> simp [hf, ih, hne, List.lookup_cons, hlookup]

/-- Only the pairs of some tokens are kept, so only these tokens are found. -/
theorem lookup_filter (p : String → Bool) (pairs : List (String × String)) (token : String) :
    (pairs.filter (p ·.1)).lookup token = if p token then pairs.lookup token else none := by
  induction pairs with
  | nil => simp
  | cons pair pairs ih =>
      obtain ⟨var, type⟩ := pair
      rcases eq_or_ne token var with rfl | hne
      · cases hp : p token <;> simp [hp, ih]
      · have hlookup : (token == var) = false := beq_eq_false_iff_ne.2 hne
        cases hp : p var <;> simp [hp, ih, List.lookup_cons, hlookup]

/-- Where no key stands twice, every pair is found by its key. -/
theorem lookup_of_nodup {α : Type} {pairs : List (String × α)} (h : (pairs.map Prod.fst).Nodup)
    {pair : String × α} (hmem : pair ∈ pairs) : pairs.lookup pair.1 = some pair.2 := by
  induction pairs with
  | nil => cases hmem
  | cons first pairs ih =>
      rw [List.map_cons, List.nodup_cons] at h
      rw [List.lookup_cons]
      rcases List.mem_cons.1 hmem with rfl | hmem
      · simp
      · have hne : pair.1 ≠ first.1 := by
          intro heq
          exact h.1 (heq ▸ List.mem_map_of_mem hmem)
        rw [beq_eq_false_iff_ne.2 hne]
        exact ih h.2 hmem

namespace VariableTypes

theorem get?_insert (types : VariableTypes) (var type token : String) :
    (types.insert var type).get? token =
      (types.get? token).or (if token = var then some type else none) := by
  split
  · subst token
    rw [get?_insert_self]
    cases types.get? var <;> rfl
  · rw [get?_insert_of_ne types type ‹_›, Option.or_none]

/-- The first record of a token stands. -/
theorem get?_foldl_insert (pairs : List (String × String)) (types : VariableTypes)
    (token : String) :
    (pairs.foldl (fun types pair => types.insert pair.1 pair.2) types).get? token =
      (types.get? token).or (pairs.lookup token) := by
  induction pairs generalizing types with
  | nil => simp
  | cons pair pairs ih =>
      obtain ⟨var, type⟩ := pair
      rw [List.foldl_cons, ih, get?_insert, Option.or_assoc]
      rcases eq_or_ne token var with rfl | hne
      · simp
      · have hlookup : (token == var) = false := beq_eq_false_iff_ne.2 hne
        simp [hne, List.lookup_cons, hlookup]

end VariableTypes

/-! ### Recorded types -/

namespace LanguageBias

variable (bias : LanguageBias)

/-- The arguments of a literal in places of a type, with that type. -/
def occurrences (literal : Term) : List (String × String) :=
  match bias.declOf? literal with
  | some decl => (literal.args.zip decl.args).filterMap fun (arg, spec) => spec.type?.map (arg, ·)
  | none => []

/-- The type of a token of a clause: that of the target for a token of the head, if there is one,
and otherwise that of the first typed place in the body, which has to hold a variable. -/
def recordedType? (clause : Rule) (token : String) : Option String :=
  if token ∈ clause.head.args ∧ bias.targetTypes.get? token ≠ none then bias.targetTypes.get? token
  else if isClauseVariable token then (clause.body.flatMap bias.occurrences).lookup token
  else none

theorem get?_headTypes (head : Term) (token : String) :
    (bias.headTypes head).get? token =
      if token ∈ head.args then bias.targetTypes.get? token else none := by
  have hpairs : bias.headTypes head =
      (head.args.filterMap fun var => (bias.targetTypes.get? var).map (var, ·)).foldl
        (fun types pair => types.insert pair.1 pair.2) .empty := by
    rw [List.foldl_filterMap, headTypes]
    congr 1
    funext types var
    cases bias.targetTypes.get? var <;> rfl
  rw [hpairs, VariableTypes.get?_foldl_insert, lookup_filterMap]
  simp

theorem recordLiteral_eq (types : VariableTypes) (literal : Term) (decl : ModeDecl) :
    types.recordLiteral literal decl =
      (((literal.args.zip decl.args).filterMap fun (arg, spec) => spec.type?.map (arg, ·)).filter
        (isClauseVariable ·.1)).foldl (fun types pair => types.insert pair.1 pair.2) types := by
  rw [List.foldl_filter, List.foldl_filterMap, VariableTypes.recordLiteral]
  congr 1
  funext types pair
  obtain ⟨arg, spec⟩ := pair
  unfold VariableTypes.recordArg
  cases htype : spec.type? <;> simp [htype]

/-- The table of a clause holds the recorded types. -/
theorem get?_clauseTypes (clause : Rule) (token : String) :
    (bias.clauseTypes clause).get? token = bias.recordedType? clause token := by
  have hpairs : bias.clauseTypes clause =
      ((clause.body.flatMap bias.occurrences).filter (isClauseVariable ·.1)).foldl
        (fun types pair => types.insert pair.1 pair.2) (bias.headTypes clause.head) := by
    rw [List.filter_flatMap, List.foldl_flatMap, clauseTypes]
    congr 1
    funext types literal
    unfold occurrences
    cases bias.declOf? literal with
    | none => rfl
    | some decl => exact recordLiteral_eq types literal decl
  rw [hpairs, VariableTypes.get?_foldl_insert, get?_headTypes, lookup_filter, recordedType?]
  by_cases hmem : token ∈ clause.head.args
  · cases bias.targetTypes.get? token <;> simp [hmem]
  · simp [hmem]

end LanguageBias

/-! ### Variables -/

/-- The tokens of a clause that may be reused, as often as they occur: all of the head, and the
variables of the body. -/
def Rule.reusableTokens (clause : Rule) : List String :=
  clause.head.args ++ (clause.body.flatMap Term.args).filter isClauseVariable

theorem Rule.mem_variables_iff {clause : Rule} {var : String} :
    var ∈ clause.variables ↔ var ∈ clause.reusableTokens := List.mem_eraseDups

/-- Without repetitions, tokens are in the order in which they first appear. -/
theorem pairwise_idxOf_eraseDups (tokens : List String) :
    tokens.eraseDups.Pairwise fun a b => tokens.idxOf a < tokens.idxOf b := by
  induction tokens using List.reverseRecOn with
  | nil => exact List.Pairwise.nil
  | append_singleton tokens last ih =>
      have hbefore : tokens.eraseDups.Pairwise
          fun a b => (tokens ++ [last]).idxOf a < (tokens ++ [last]).idxOf b := by
        refine ih.imp_of_mem fun ha hb hlt => ?_
        rwa [List.idxOf_append_of_mem (List.mem_eraseDups.1 ha),
          List.idxOf_append_of_mem (List.mem_eraseDups.1 hb)]
      rw [List.eraseDups_append]
      by_cases hlast : last ∈ tokens
      · simpa [List.removeAll, hlast] using hbefore
      · have hplace : (tokens ++ [last]).idxOf last = tokens.length := by
          simp [List.idxOf_append_of_notMem hlast]
        have hnew : [last].removeAll tokens = [last] := by simp [List.removeAll, hlast]
        rw [hnew, List.pairwise_append]
        refine ⟨hbefore, List.pairwise_singleton _ last, fun a ha b hb => ?_⟩
        obtain rfl := List.mem_singleton.1 (List.mem_eraseDups.1 hb)
        rw [hplace, List.idxOf_append_of_mem (List.mem_eraseDups.1 ha)]
        exact List.idxOf_lt_length_of_mem (List.mem_eraseDups.1 ha)

end ClauseForest
