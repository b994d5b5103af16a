/-
**Declared backgrounds**

The background of a data set is taken in as a whole: a declaration that names the target gives the
target term, and the others give the literals that may be tested.  Names hold no parenthesis, so a
term is read back with the name of its declaration, and no test can be mistaken for the target.  A
clause with tests in its body never calls itself.

Main definitions:

* `Dataset.HasBackground` — the background was taken in without a fault;
* `Dataset.HasFacts`, `Dataset.HasExamples` — the facts, and the examples, are about constants.

Main results:

* `Dataset.HasBackground.predicate_ne` — **no test has the predicate of the target**.
-/

import ClauseForest.Dataset.Basic
import ClauseForest.Proofs.Logic.Grounding
import ClauseForest.Proofs.Refinement.Names

set_option relaxedAutoImplicit false
set_option autoImplicit false

namespace ClauseForest

namespace Dataset

/-! ### The target -/

/-- The target term is built of names. -/
theorem named_targetTerm {decl : ModeDecl} (h : decl.WellFormed) :
    (targetTerm decl).Named where
  predicate := .of_isName h.name
  args := fun _ harg => .of_isAlphanum fun _ hc => isAlphanum_of_mem_freshNames harg hc
  args_ne_nil := by
    intro hnil
    have hlength := length_freshNames [] decl.arity
    rw [show freshNames [] decl.arity = [] from hnil] at hlength
    exact h.args_ne_nil (List.length_eq_zero_iff.1 hlength.symm)

/-! ### Data sets -/

/-- The facts are facts about constants. -/
def HasFacts (d : Dataset) : Prop :=
  ∀ text ∈ d.facts, ∀ rule, Rule.parse text = .ok rule → rule.body = [] ∧ rule.head.IsGround

/-- The examples are terms without variables. -/
def HasExamples (d : Dataset) : Prop :=
  ∀ text ∈ d.examples, ∀ query, Term.parse text = .ok query → query.IsGround

theorem hasFacts_of_mapM {d : Dataset} {rules : List Rule} (h : d.facts.mapM Rule.parse = .ok rules)
    (hrules : ∀ rule ∈ rules, rule.body = [] ∧ rule.head.IsGround) : d.HasFacts :=
  forall_of_mapM h hrules

theorem hasExamples_of_mapM {d : Dataset} {queries : List Term}
    (h : d.examples.mapM Term.parse = .ok queries) (hqueries : ∀ query ∈ queries, query.IsGround) :
    d.HasExamples := forall_of_mapM h hqueries

/-- The background was taken in without a fault, from declarations that were read. -/
def HasBackground (d : Dataset) : Prop :=
  ∃ (before : Dataset) (target : String) (background : List ModeDecl),
    (∀ decl ∈ background, decl.IsRead) ∧ (before.setBackground target background).2 = none ∧
      d.target = (before.setBackground target background).1.target ∧
      d.literals = (before.setBackground target background).1.literals ∧
      d.variableTypes = (before.setBackground target background).1.variableTypes

/-- The target is declared, and so are the literals, under other names. -/
theorem HasBackground.exists_decl {d : Dataset} (h : d.HasBackground) :
    ∃ decl : ModeDecl, decl.WellFormed ∧ d.target = (targetTerm decl).render ∧
      ∀ literal ∈ d.literals, literal.WellFormed ∧ literal.name ≠ decl.name := by
  obtain ⟨before, target, background, hread, hfault, htarget, hliterals, -⟩ := h
  unfold setBackground at hfault htarget hliterals
  cases hfind : background.find? (·.name = target) with
  | none => simp [hfind] at hfault
  | some decl =>
      simp only [hfind] at htarget hliterals
      have hname : decl.name = target := by simpa using List.find?_some hfind
      refine ⟨decl, ModeDecl.wellFormed_of_isRead (hread decl (List.mem_of_find?_eq_some hfind)),
        htarget, fun literal hliteral => ?_⟩
      rw [hliterals] at hliteral
      obtain ⟨hmem, hliteral⟩ := List.mem_filter.1 hliteral
      refine ⟨ModeDecl.wellFormed_of_isRead (hread literal hmem), ?_⟩
      rw [hname]
      exact (of_decide_eq_true hliteral).2

/-- No test has the predicate of the target. -/
theorem HasBackground.predicate_ne {d : Dataset} (h : d.HasBackground) {target : Term}
    (htarget : Term.parse d.target = .ok target) {clause : String} {exclude tests : List String}
    (htests : LanguageBias.candidates ⟨d.literals, d.variableTypes⟩ clause exclude = .ok tests)
    {text : String} (htext : text ∈ tests) {test : Term} (htest : Term.parse text = .ok test) :
    test.predicate ≠ target.predicate := by
  obtain ⟨decl, hdecl, heq, hliterals⟩ := h.exists_decl
  have hnames : ∀ literal ∈ d.literals, '(' ∉ literal.name.toList :=
    fun literal hliteral => (hliterals literal hliteral).1.not_mem_name
  obtain ⟨literal, hliteral, hname⟩ :=
    LanguageBias.predicate_of_mem_candidates htests htext hnames htest
  rw [heq] at htarget
  rw [Term.predicate_of_parse_render hdecl.not_mem_name htarget, hname]
  exact (hliterals literal hliteral).2

end Dataset

end ClauseForest
