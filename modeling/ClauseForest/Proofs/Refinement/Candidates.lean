/-
**Literals that are offered**

A declaration that was read can always be filled: an input takes a new variable where no variable of
its type exists, and no list of constants is empty.  So every declaration of a literal offers a literal
for every clause, and what it offers is read back, with the name of the declaration.

Main results:

* `combinations_ne_nil` — something can be taken from sets that are not empty;
* `LanguageBias.cases_of_mem_slots`, `LanguageBias.forall_of_mem_slots` — what an argument may be;
* `LanguageBias.predicate_of_mem_candidates` — what is offered has the name of a declaration;
* `LanguageBias.exists_mem_candidates` — **every declaration of a literal offers a literal**.
-/

import ClauseForest.Proofs.Logic.Rendering
import ClauseForest.Proofs.Mode.WellFormed
import ClauseForest.Proofs.Refinement.Enumeration

set_option relaxedAutoImplicit false
set_option autoImplicit false

namespace ClauseForest

theorem combinations_ne_nil {sets : List (List String)} (h : ∀ set ∈ sets, set ≠ []) :
    combinations sets ≠ [] := by
  induction sets with
  | nil => simp [combinations]
  | cons set sets ih =>
      obtain ⟨item, items, rfl⟩ := List.exists_cons_of_ne_nil (h set (by simp))
      have hrest := ih fun other hother => h other (List.mem_cons_of_mem _ hother)
      simp [combinations, hrest]

/-- What holds of all elements of the sets holds of all that is taken from them. -/
theorem forall_of_mem_combinations {P : String → Prop} {sets : List (List String)}
    (h : ∀ set ∈ sets, ∀ item ∈ set, P item) {items : List String} (hitems : items ∈ combinations sets) :
    ∀ item ∈ items, P item := by
  obtain ⟨hlength, hmem⟩ := mem_combinations.1 hitems
  intro item hitem
  obtain ⟨i, hi, rfl⟩ := List.getElem_of_mem hitem
  have hpair := hmem (items[i], sets[i]) (List.mem_iff_getElem.2 ⟨i, by simp [hi, ← hlength], by simp⟩)
  exact h _ (List.getElem_mem _) _ hpair

/-- A name stands for itself as an argument. -/
theorem Term.ReadsBack.of_isName {arg : String} (h : isName arg = true) : Term.ReadsBack arg :=
  .of_forall (by decide) (continuesName_of_isName h)

theorem Term.ReadsBack.of_isClauseVariable {arg : String} (h : isClauseVariable arg = true) :
    Term.ReadsBack arg := .of_isAlphanum fun _ => isAlphanum_of_isClauseVariable h

namespace LanguageBias

variable {bias : LanguageBias} {clause : Rule} {specs : List ArgSpec}
  {new : Fin specs.length → String}

/-- An argument is one of the listed constants, a new variable or a variable of the clause. -/
theorem cases_of_mem_slots : ∀ set ∈ bias.slots clause specs new,
    ArgSpec.oneOf set ∈ specs ∨ (∃ i, set = [new i]) ∨ (set ≠ [] ∧ set ⊆ clause.variables) := by
  intro set hset
  obtain ⟨i, rfl⟩ := List.mem_ofFn.1 hset
  rcases bias.slot_cases clause (new i) specs[i] with hspec | hnew | hold
  · exact .inl (hspec ▸ List.getElem_mem i.2)
  · exact .inr (.inl ⟨i, hnew⟩)
  · exact .inr (.inr hold)

theorem ne_nil_of_mem_slots (hspecs : ∀ spec ∈ specs, spec.WellFormed) :
    ∀ set ∈ bias.slots clause specs new, set ≠ [] := by
  intro set hset
  rcases cases_of_mem_slots set hset with hspec | ⟨i, rfl⟩ | ⟨hne, -⟩
  · exact (hspecs _ hspec).1
  · simp
  · exact hne

/-- What holds of names, of new names and of the variables of a clause holds of what may be filled
in. -/
theorem forall_of_mem_slots {P : String → Prop} (hname : ∀ item, isName item = true → P item)
    (hnew : ∀ i, P (new i)) (hspecs : ∀ spec ∈ specs, spec.WellFormed)
    (hvars : ∀ var ∈ clause.variables, P var) :
    ∀ set ∈ bias.slots clause specs new, ∀ item ∈ set, P item := by
  intro set hset item hitem
  rcases cases_of_mem_slots set hset with hspec | ⟨i, rfl⟩ | ⟨-, hold⟩
  · exact hname item ((hspecs _ hspec).2 item hitem)
  · obtain rfl := List.mem_singleton.1 hitem
    exact hnew i
  · exact hvars item (hold hitem)

/-- A literal of a declaration has arguments. -/
theorem ne_nil_of_mem_combinations {decl : ModeDecl} (hdecl : decl.WellFormed)
    {new : Fin decl.args.length → String} {items : List String}
    (hitems : items ∈ combinations (bias.slots clause decl.args new)) : items ≠ [] := by
  rintro rfl
  have hlength := (mem_combinations.1 hitems).1
  rw [length_slots] at hlength
  exact hdecl.args_ne_nil (List.length_eq_zero_iff.1 hlength.symm)

/-- Every candidate is a literal of a declaration. -/
theorem exists_of_mem_candidates {clause : String} {exclude tests : List String}
    (h : bias.candidates clause exclude = .ok tests) {text : String} (htext : text ∈ tests) :
    ∃ decl ∈ bias.background, ∃ args, text = Term.render ⟨decl.name, args⟩ := by
  obtain ⟨found, hfound, h⟩ := bind_eq_ok_iff.1 h
  cases h
  obtain ⟨literals, hliterals, hmem⟩ :=
    List.mem_flatten.1 (List.mem_filter.1 (List.mem_eraseDups.1 htext)).1
  obtain ⟨decl, hdecl, hlist⟩ := exists_of_mem_mapM hfound hliterals
  obtain ⟨clause, -, rfl⟩ := map_eq_ok_iff.1 hlist
  obtain ⟨args, -, rfl⟩ := List.mem_map.1 hmem
  exact ⟨decl, (List.mem_filter.1 hdecl).1, args, rfl⟩

/-- What is excluded is not offered. -/
theorem not_mem_of_mem_candidates {clause : String} {exclude tests : List String}
    (h : bias.candidates clause exclude = .ok tests) {text : String} (htext : text ∈ tests) :
    text ∉ exclude := by
  obtain ⟨found, -, h⟩ := bind_eq_ok_iff.1 h
  cases h
  exact of_decide_eq_true (List.mem_filter.1 (List.mem_eraseDups.1 htext)).2

/-- What is offered has the name of a declaration. -/
theorem predicate_of_mem_candidates {clause : String} {exclude tests : List String}
    (h : bias.candidates clause exclude = .ok tests) {text : String} (htext : text ∈ tests)
    (hnames : ∀ decl ∈ bias.background, '(' ∉ decl.name.toList) {test : Term}
    (htest : Term.parse text = .ok test) : ∃ decl ∈ bias.background, test.predicate = decl.name := by
  obtain ⟨decl, hdecl, args, rfl⟩ := exists_of_mem_candidates h htext
  exact ⟨decl, hdecl, Term.predicate_of_parse_render (hnames decl hdecl) htest⟩

/-- A declaration offers a literal for every clause, and it is read back. -/
theorem exists_mem_literalsFor (bias : LanguageBias) {decl : ModeDecl} (hdecl : decl.WellFormed)
    {clause : Rule} (hvars : ∀ var ∈ clause.variables, Term.ReadsBack var) :
    ∃ test : Term, test.predicate = decl.name ∧ Term.parse test.render = .ok test ∧
      test.render ∈ bias.literalsFor decl.name decl.args clause := by
  let sets := bias.slots clause decl.args (bias.newName clause decl.args)
  obtain ⟨items, hitems⟩ : ∃ items, items ∈ combinations sets :=
    List.exists_mem_of_ne_nil _ (combinations_ne_nil (ne_nil_of_mem_slots hdecl.args))
  have hnew := (bias.areNew_newName clause decl.args).isClauseVariable
  have hreads : ∀ item ∈ items, Term.ReadsBack item :=
    forall_of_mem_combinations (forall_of_mem_slots (fun _ => .of_isName)
      (fun i => .of_isClauseVariable (hnew i)) hdecl.args hvars) hitems
  refine ⟨⟨decl.name, items⟩, rfl, Term.parse_render hdecl.not_mem_name
    (ne_nil_of_mem_combinations hdecl hitems) hreads, ?_⟩
  rw [literalsFor_eq]
  exact List.mem_map.2 ⟨items, hitems, rfl⟩

/-- Every declaration of a literal offers literals for a clause text that is read. -/
theorem mapM_literalsOf (bias : LanguageBias) {text : String} {clause : Rule}
    (hclause : Rule.parseOpen text = .ok clause) :
    (bias.background.filter ModeDecl.isLiteral).mapM
        (fun decl => bias.literalsOf decl.name decl.args text) =
      .ok ((bias.background.filter ModeDecl.isLiteral).map fun decl =>
        bias.literalsFor decl.name decl.args clause) := by
  have hoffers : ∀ decl : ModeDecl, bias.literalsOf decl.name decl.args text =
      .ok (bias.literalsFor decl.name decl.args clause) :=
    fun decl => map_eq_ok_iff.2 ⟨clause, hclause, rfl⟩
  simp only [hoffers]
  exact List.mapM_pure

/-- There are candidates for a clause text that is read, if only none. -/
theorem exists_candidates (bias : LanguageBias) {text : String} {clause : Rule}
    (hclause : Rule.parseOpen text = .ok clause) (exclude : List String) :
    ∃ tests, bias.candidates text exclude = .ok tests :=
  ⟨_, bind_eq_ok_iff.2 ⟨_, bias.mapM_literalsOf hclause, rfl⟩⟩

/-- Every declaration of a literal offers a literal, and it is read back. -/
theorem exists_mem_candidates (bias : LanguageBias) {text : String} {clause : Rule}
    (hclause : Rule.parseOpen text = .ok clause)
    (hvars : ∀ var ∈ clause.variables, Term.ReadsBack var) {decl : ModeDecl}
    (hmem : decl ∈ bias.background) (hliteral : decl.isLiteral = true) (hdecl : decl.WellFormed) :
    ∃ tests, bias.candidates text [] = .ok tests ∧
      ∃ test : Term, test.render ∈ tests ∧ Term.parse test.render = .ok test ∧
        test.predicate = decl.name := by
  obtain ⟨test, hname, hparse, htest⟩ := exists_mem_literalsFor bias hdecl hvars
  refine ⟨_, bind_eq_ok_iff.2 ⟨_, bias.mapM_literalsOf hclause, rfl⟩, test, ?_, hparse, hname⟩
  refine List.mem_eraseDups.2 (List.mem_filter.2 ⟨List.mem_flatten.2 ⟨_, ?_, htest⟩, by simp⟩)
  exact List.mem_map.2 ⟨decl, List.mem_filter.2 ⟨hmem, hliteral⟩, rfl⟩

end LanguageBias

end ClauseForest
