/-
**Clauses that are built of names**

The syntax of clauses is ambiguous in general: a predicate may hold a neck, an argument may hold a
separator, and both may hold blanks.  None of this can happen where predicates and arguments are made of
the characters of names.  Such a clause is cut exactly where it was joined, so it is read back.

Whatever is offered to extend such a clause is built of names again, since it is filled with variables of
the clause, with new names and with declared constants.

Main definitions:

* `Term.Named`, `Rule.Named` — terms and rules that are built of names.

Main results:

* `Term.Named.printable`, `Rule.Named.printable` — **what is built of names is printable**, so it is read
  back;
* `Rule.Named.parseOpen_renderClause` — so is a clause under construction;
* `LanguageBias.named_of_mem_candidates` — **what is offered is built of names**.
-/

import ClauseForest.Proofs.Logic.Printable
import ClauseForest.Proofs.Refinement.Candidates
import ClauseForest.Tree.Leaf

set_option relaxedAutoImplicit false
set_option autoImplicit false

namespace ClauseForest

/-! ### Terms -/

/-- Whether a text is made of the characters of names. -/
def Named (text : String) : Prop := ∀ c ∈ text.toList, Lexeme.continuesName c = true

theorem Named.of_isName {text : String} (h : isName text = true) : Named text :=
  continuesName_of_isName h

theorem Named.of_isAlphanum {text : String} (h : ∀ c ∈ text.toList, c.isAlphanum = true) :
    Named text := by
  intro c hc
  simp [Lexeme.continuesName, Lexeme.startsName, h c hc]

namespace Term

/-- A term that is built of names. -/
structure Named (t : Term) : Prop where
  predicate : ClauseForest.Named t.predicate
  args : ∀ arg ∈ t.args, ClauseForest.Named arg
  args_ne_nil : t.args ≠ []

variable {t : Term} {c : Char}

/-- A written term that is built of names holds its own marks only. -/
theorem Named.cases_of_mem_render (h : t.Named) (hc : c ∈ t.render.toList) :
    Lexeme.continuesName c = true ∨ c ∈ ['(', ',', ')'] := by
  rcases mem_render hc with hc | hc | ⟨arg, harg, hc⟩
  · exact .inl (h.predicate c hc)
  · exact .inr hc
  · exact .inl (h.args arg harg c hc)

theorem Named.not_mem_render (h : t.Named) (hname : Lexeme.continuesName c = false)
    (hmark : c ∉ ['(', ',', ')']) : c ∉ t.render.toList := by
  intro hc
  rcases h.cases_of_mem_render hc with htrue | hmem
  · rw [hname] at htrue
    cases htrue
  · exact hmark hmem

/-- A term that is built of names is printable. -/
theorem Named.printable (h : t.Named) : t.Printable where
  predicate hmem := absurd (h.predicate _ hmem) (by decide)
  args_ne_nil := h.args_ne_nil
  args arg harg := .of_forall (by decide) (h.args arg harg)

/-- A term that is built of names is read back. -/
theorem Named.parse_render (h : t.Named) : parse t.render = .ok t := h.printable.parse_render

/-- A written term ends with its only closing parenthesis, so no comma follows one. -/
theorem Named.not_infix_render (h : t.Named) : ¬[')', ','] <:+: t.render.toList := by
  rw [toList_render]
  refine Text.not_pair_infix_concat fun hmem => ?_
  rcases List.mem_append.1 hmem with hmem | hmem
  · exact absurd (h.predicate _ hmem) (by decide)
  · rcases List.mem_cons.1 hmem with hopen | hmem
    · cases hopen
    · rcases Text.mem_joinWith hmem with hcomma | ⟨piece, hpiece, hmem⟩
      · cases hcomma
      · obtain ⟨arg, harg, rfl⟩ := List.mem_map.1 hpiece
        exact absurd (h.args arg harg _ hmem) (by decide)

end Term

/-! ### Rules -/

namespace Rule

/-- A rule that is built of names. -/
structure Named (r : Rule) : Prop where
  head : r.head.Named
  body : ∀ literal ∈ r.body, literal.Named

variable {r : Rule}

/-- A rule that is built of names is printable. -/
theorem Named.printable (h : r.Named) : r.Printable where
  head := h.head.printable
  body literal hliteral := (h.body literal hliteral).printable
  neck hinfix := by
    have hcolon : ':' ∈ r.head.render.toList := hinfix.subset (by simp)
    exact h.head.not_mem_render (by decide) (by decide) hcolon
  semicolon literal hliteral := (h.body literal hliteral).not_mem_render (by decide) (by decide)
  comma literal hliteral := (h.body literal hliteral).not_infix_render

/-- A rule that is built of names is read back. -/
theorem Named.parse_render (h : r.Named) : parse r.render = .ok r := h.printable.parse_render

/-- A clause under construction that is built of names is read back. -/
theorem Named.parseOpen_renderClause (h : r.Named) : parseOpen (Leaf.renderClause r) = .ok r :=
  h.printable.parseOpen_render

theorem Named.of_mem_variables (h : r.Named) : ∀ var ∈ r.variables, ClauseForest.Named var := by
  intro var hvar
  rcases List.mem_append.1 (mem_variables_iff.1 hvar) with hhead | hbody
  · exact h.head.args var hhead
  · obtain ⟨literal, hliteral, hmem⟩ := List.mem_flatMap.1 (List.mem_filter.1 hbody).1
    exact (h.body literal hliteral).args var hmem

end Rule

/-! ### Literals that are offered -/

namespace LanguageBias

variable {bias : LanguageBias}

/-- What is offered to extend a clause that is built of names is a literal of a declaration whose
arguments are filled, and it is built of names. -/
theorem exists_combination_of_mem_candidates (hbias : ∀ decl ∈ bias.background, decl.WellFormed)
    {clause : Rule} (hclause : clause.Named) {exclude tests : List String}
    (h : bias.candidates (Leaf.renderClause clause) exclude = .ok tests) {text : String}
    (htext : text ∈ tests) : ∃ decl ∈ bias.background,
      ∃ args ∈ combinations (bias.slots clause decl.args (bias.newName clause decl.args)),
        Term.Named ⟨decl.name, args⟩ ∧ text = Term.render ⟨decl.name, args⟩ := by
  obtain ⟨found, hfound, h⟩ := bind_eq_ok_iff.1 h
  cases h
  obtain ⟨literals, hliterals, hmem⟩ :=
    List.mem_flatten.1 (List.mem_filter.1 (List.mem_eraseDups.1 htext)).1
  obtain ⟨decl, hdecl, hlist⟩ := exists_of_mem_mapM hfound hliterals
  obtain ⟨read, hread, rfl⟩ := map_eq_ok_iff.1 hlist
  obtain rfl : clause = read := Except.ok.inj (hclause.parseOpen_renderClause.symm.trans hread)
  rw [literalsFor_eq] at hmem
  obtain ⟨args, hargs, rfl⟩ := List.mem_map.1 hmem
  have hbackground := (List.mem_filter.1 hdecl).1
  have hwell := hbias decl hbackground
  have hnew : ∀ i, Named (bias.newName clause decl.args i) := fun i => .of_isAlphanum fun _ =>
    isAlphanum_of_isClauseVariable ((bias.areNew_newName clause decl.args).isClauseVariable i)
  exact ⟨decl, hbackground, args, hargs,
    ⟨.of_isName hwell.name,
      forall_of_mem_combinations (forall_of_mem_slots (fun _ => .of_isName) hnew hwell.args
        hclause.of_mem_variables) hargs,
      ne_nil_of_mem_combinations hwell hargs⟩, rfl⟩

/-- What is offered to extend a clause that is built of names is built of names. -/
theorem named_of_mem_candidates (hbias : ∀ decl ∈ bias.background, decl.WellFormed) {clause : Rule}
    (hclause : clause.Named) {exclude tests : List String}
    (h : bias.candidates (Leaf.renderClause clause) exclude = .ok tests) {text : String}
    (htext : text ∈ tests) : ∃ test : Term, test.Named ∧ text = test.render := by
  obtain ⟨decl, -, args, -, hnamed, rfl⟩ := exists_combination_of_mem_candidates hbias hclause h htext
  exact ⟨_, hnamed, rfl⟩

end LanguageBias

end ClauseForest
