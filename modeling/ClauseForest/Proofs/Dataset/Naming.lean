/-
**The names of variables**

Variables are named when a target is set and when literals are generated.  Both times names are looked
for that are not taken, and each name that is found is taken from then on.  Such a search always ends, and
what it finds depends on which names are taken but not on the order in which they were.  For a target
nothing is taken at first, so its variables are the first names of the enumeration, one for each argument of
its declaration.

Main results:

* `Dataset.target_setBackground_of_find?` — the target that is set, and what is read from it;
* `Dataset.searchName_and_target_setBackground` — **names never run out and never collide**.
-/

import ClauseForest.Proofs.Dataset.Target
import ClauseForest.Proofs.Logic.NameSearch

set_option relaxedAutoImplicit false
set_option autoImplicit false

namespace ClauseForest.Dataset

/-! ### Variables of the target -/

theorem targetTerm_eq (decl : ModeDecl) :
    targetTerm decl = ⟨decl.name, (List.range decl.arity).map variableName⟩ := by
  rw [targetTerm, freshNames_nil]

/-- The target that is set has the first names of the enumeration for its variables. -/
theorem target_setBackground_of_find? (d : Dataset) {target : String} {background : List ModeDecl}
    {decl : ModeDecl} (hfind : background.find? (·.name = target) = some decl) :
    (d.setBackground target background).1.target =
      Term.render ⟨target, (List.range decl.arity).map variableName⟩ ∧
    ('(' ∉ target.toList → decl.args ≠ [] →
      Term.parse (d.setBackground target background).1.target =
        .ok ⟨target, (List.range decl.arity).map variableName⟩) := by
  have hname : decl.name = target := by simpa using List.find?_some hfind
  subst hname
  rw [target_setBackground, hfind, Option.elim_some, ← targetTerm_eq]
  exact ⟨rfl, parse_render_targetTerm⟩

/-- **Names never run out and never collide.**  The enumeration of names is the rounds `A` to `Z`, `A1` to
`Z1` and so on, one after another; it has no repetition, and both the learner and the prover take all of
its names for variables.  Whatever names are taken, the search through the rounds ends, with the first name
of the enumeration that is not taken, and only which names are taken counts for it.  Any number of
searches in a row, each of which takes what it found, end with as many names, which are different and were
not taken before.  So a target that is set, with any number of arguments, has different variables, and
they are still different when it is read. -/
theorem searchName_and_target_setBackground :
    ((∀ rounds, (List.range rounds).flatMap roundNames =
        (List.range (26 * rounds)).map variableName) ∧
      Function.Injective variableName ∧
      ∀ n, isClauseVariable (variableName n) = true ∧ isVariable (variableName n) = true) ∧
    (∀ taken,
      (∃ n, searchName taken = some (variableName n) ∧ freshName taken = variableName n ∧
        variableName n ∉ taken ∧ ∀ m < n, variableName m ∈ taken) ∧
      ∀ taken', (∀ name, name ∈ taken ↔ name ∈ taken') → searchName taken = searchName taken') ∧
    (∀ taken count, ∃ names, mintNames taken count = some names ∧ freshNames taken count = names ∧
      names.length = count ∧ names.Nodup ∧ ∀ name ∈ names, name ∉ taken) ∧
    ∀ (d : Dataset) (target : String) (background : List ModeDecl) (decl : ModeDecl),
      background.find? (·.name = target) = some decl →
        ∃ vars, mintNames [] decl.arity = some vars ∧ vars.length = decl.arity ∧ vars.Nodup ∧
          vars = (List.range decl.arity).map variableName ∧
          (d.setBackground target background).1.target = Term.render ⟨target, vars⟩ ∧
          ('(' ∉ target.toList → decl.args ≠ [] →
            Term.parse (d.setBackground target background).1.target = .ok ⟨target, vars⟩) := by
  refine ⟨⟨flatMap_roundNames, variableName_injective, fun n => ?_⟩, fun taken => ⟨?_, fun _ =>
    searchName_congr⟩, fun taken count => ?_, fun d target background decl hfind => ?_⟩
  · have hclause := isClauseVariable_variableName n
    exact ⟨hclause, isVariable_of_isClauseVariable hclause⟩
  · obtain ⟨n, hname, hfree, hfirst⟩ := exists_freshName_eq taken
    exact ⟨n, (searchName_eq taken).trans (congrArg some hname), hname, hfree, hfirst⟩
  · exact ⟨_, mintNames_eq taken count, rfl, length_freshNames taken count,
      nodup_freshNames taken count, fun _ => not_mem_of_mem_freshNames⟩
  · obtain ⟨htarget, hparse⟩ := target_setBackground_of_find? d hfind
    have hvars := freshNames_nil decl.arity
    rw [← hvars] at htarget hparse
    exact ⟨_, mintNames_eq [] decl.arity, length_freshNames [] decl.arity,
      nodup_freshNames [] decl.arity, hvars, htarget, hparse⟩

/-- The theorem for a target with three arguments that is declared behind a literal, and for two names that
are taken in either order. -/
theorem searchName_and_target_setBackground_road :
    let town : ArgSpec := .typed (some .input) "town"
    let road : ModeDecl := ⟨"road", [town, town, .oneOf ["paved", "dirt"]]⟩
    let background : List ModeDecl := [⟨"large", [town]⟩, road]
    background.find? (·.name = "road") = some road ∧ '(' ∉ "road".toList ∧ road.args ≠ [] ∧
      Term.parse ((empty .default).setBackground "road" background).1.target =
        .ok ⟨"road", ["A", "B", "C"]⟩ ∧
      (∀ name, name ∈ ["A", "C"] ↔ name ∈ ["C", "A", "A"]) ∧
      searchName ["A", "C"] = searchName ["C", "A", "A"] := by
  intro town road background
  have hfind : background.find? (·.name = "road") = some road := by decide
  have htaken : ∀ name, name ∈ ["A", "C"] ↔ name ∈ ["C", "A", "A"] := by
    intro name
    simp [or_comm]
  obtain ⟨-, hsearch, -, htarget⟩ := searchName_and_target_setBackground
  obtain ⟨vars, -, -, -, hvars, -, hparse⟩ := htarget (empty .default) "road" background road hfind
  have hnames : vars = ["A", "B", "C"] := hvars.trans (by decide)
  subst hnames
  exact ⟨hfind, by decide, by decide, hparse (by decide) (by decide), htaken,
    (hsearch ["A", "C"]).2 _ htaken⟩

end ClauseForest.Dataset
