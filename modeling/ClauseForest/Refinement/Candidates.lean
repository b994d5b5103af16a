/-
**Literals that may extend a clause**

A clause is refined by one more literal at a time.  The declarations allow a literal wherever its
arguments can be filled: an input takes each variable of the clause that has the declared type, or a
new variable when there is none; an output takes a new variable; a list of constants takes each of
them.  All ways to fill the arguments are enumerated, the first argument varying slowest.

Main definitions:

* `combinations` — one element from each set, in every way;
* `Rule.variables` — the variables of a clause;
* `LanguageBias` — the declarations and the types of the target's variables;
* `LanguageBias.fillSlots` — what each argument may be;
* `LanguageBias.literalsOf` — the literals of one declaration;
* `LanguageBias.candidates` — the literals of all declarations, without repetitions;
* `LanguageBias.gather` — the same, in one pass that looks at each literal once.

Main results:

* `mem_combinations` — what is enumerated.
-/

import ClauseForest.Logic.Rule
import ClauseForest.Refinement.VariableTypes

set_option relaxedAutoImplicit false
set_option autoImplicit false

namespace ClauseForest

/-! ### Combinations -/

/-- Every way to take one element from each set, the first set varying slowest. -/
def combinations : List (List String) → List (List String)
  | [] => [[]]
  | set :: sets =>
    let rest := combinations sets
    set.flatMap fun item => rest.map (item :: ·)

/-- A combination takes one element from each set. -/
theorem mem_combinations {sets : List (List String)} {items : List String} :
    items ∈ combinations sets ↔
      items.length = sets.length ∧ ∀ pair ∈ items.zip sets, pair.1 ∈ pair.2 := by
  induction sets generalizing items with
  | nil => cases items <;> simp [combinations]
  | cons set sets ih =>
    cases items with
    | nil => simp [combinations]
    | cons item items =>
      simp only [combinations, List.mem_flatMap, List.mem_map, List.cons.injEq,
        List.length_cons, Nat.add_right_cancel_iff, List.zip_cons_cons, List.mem_cons,
        forall_eq_or_imp]
      constructor
      · rintro ⟨_, hitem, _, hrest, rfl, rfl⟩
        exact ⟨(ih.1 hrest).1, hitem, (ih.1 hrest).2⟩
      · rintro ⟨hlength, hitem, hrest⟩
        exact ⟨item, hitem, items, ih.2 ⟨hlength, hrest⟩, rfl, rfl⟩

/-! ### Variables of a clause -/

/-- The arguments of the head, and the variables of the body, each once and in the order of its first
appearance. -/
def Rule.variables (clause : Rule) : List String :=
  (clause.head.args ++ (clause.body.flatMap Term.args).filter isClauseVariable).eraseDups

/-! ### Candidates -/

/-- What restricts the literals of a clause. -/
structure LanguageBias where
  /-- The declarations, both of the literals to generate and of those already in a clause. -/
  background : List ModeDecl
  /-- The types of the variables of the target. -/
  targetTypes : VariableTypes

namespace LanguageBias

/-- The declaration of a literal: the first of its name and number of arguments. -/
def declOf? (bias : LanguageBias) (literal : Term) : Option ModeDecl :=
  bias.background.find? fun decl => decl.name = literal.predicate ∧ decl.arity = literal.arity

/-- The types of the target's variables that stand in the head of a clause. -/
def headTypes (bias : LanguageBias) (head : Term) : VariableTypes :=
  head.args.foldl (fun types var =>
    match bias.targetTypes.get? var with
    | some type => types.insert var type
    | none => types) .empty

/-- The types of the variables of a clause: those of the target first, then those that the
declarations give to the literals of the body, in order. -/
def clauseTypes (bias : LanguageBias) (clause : Rule) : VariableTypes :=
  clause.body.foldl (fun types literal =>
    match bias.declOf? literal with
    | some decl => types.recordLiteral literal decl
    | none => types) (bias.headTypes clause.head)

/-- The variables that an argument may reuse: those of its type, unless it must be new. -/
def reusable (vars : List String) (types : VariableTypes) (mode : Option Mode) (type : String) :
    List String :=
  if mode = some .output then [] else vars.filter fun var => types.get? var = some type

/-- What each argument may be, given the names already taken. -/
def fillSlots (vars : List String) (types : VariableTypes) :
    List String → List ArgSpec → List (List String)
  | _, [] => []
  | taken, .oneOf constants :: specs => constants :: fillSlots vars types taken specs
  | taken, .typed mode type :: specs =>
    match reusable vars types mode type with
    | [] =>
      let name := freshName taken
      [name] :: fillSlots vars types (taken ++ [name]) specs
    | old => old :: fillSlots vars types taken specs

/-- The literals of a predicate with the given arguments that may extend a clause.  The list may hold
repetitions. -/
def literalsFor (bias : LanguageBias) (name : String) (specs : List ArgSpec) (clause : Rule) :
    List String :=
  let vars := clause.variables
  (combinations (fillSlots vars (bias.clauseTypes clause) vars specs)).map fun args =>
    Term.render ⟨name, args⟩

/-- The literals of a predicate with the given arguments that may extend a clause text. -/
def literalsOf (bias : LanguageBias) (name : String) (specs : List ArgSpec) (clause : String) :
    Except SyntaxError (List String) :=
  bias.literalsFor name specs <$> Rule.parseOpen clause

/-- The literals of all declarations that may extend a clause text, in the order in which they are
first found, without those to be excluded. -/
def candidates (bias : LanguageBias) (clause : String) (exclude : List String) :
    Except SyntaxError (List String) := do
  let found ← (bias.background.filter ModeDecl.isLiteral).mapM fun decl =>
    bias.literalsOf decl.name decl.args clause
  return (found.flatten.filter (· ∉ exclude)).eraseDups

/-- Keeps a literal behind those that were kept before, unless it is to be excluded or is among them. -/
def keep (exclude kept : List String) (literal : String) : List String :=
  if literal ∉ exclude ∧ literal ∉ kept then kept ++ [literal] else kept

/-- The literals that may extend a clause text, gathered in one pass: the literals of a declaration are
looked at one by one before those of the next declaration are generated. -/
def gather (bias : LanguageBias) (clause : String) (exclude : List String) :
    Except SyntaxError (List String) :=
  (bias.background.filter ModeDecl.isLiteral).foldlM (fun kept decl => do
    let literals ← bias.literalsOf decl.name decl.args clause
    return literals.foldl (keep exclude) kept) []

end LanguageBias

end ClauseForest
