/-
**The target and the literals**

The literals that may be tested come from the last background call, and the target comes from the last
one that was not refused.  As long as these are the same call, no literal has the name of the target.
A call is refused if it declares no target, and by then its literals were taken in.  So it can bring in a
literal with the name of the target that is still set, and a clause that tests it calls itself.

Main definitions:

* `Dataset.lastCall`, `Dataset.lastDeclared` — the last background call of a history, and the
  declaration of the target that was set last;
* `Dataset.NamesTarget` — a literal that may be tested has the name of the target;
* `Dataset.CallsTarget` — a literal that is generated for a clause calls the target.

Main results:

* `Dataset.sameBackground_apply` — only background calls change target and literals;
* `Dataset.literals_after`, `Dataset.target_after` — where literals and target come from;
* `Dataset.parse_target_after_iff` — the target is read back as the term of its declaration;
* `Dataset.callsTarget_after` — **when a clause can call its target**.
-/

import ClauseForest.Proofs.Dataset.History
import Mathlib.Data.List.Induction

set_option relaxedAutoImplicit false
set_option autoImplicit false

namespace ClauseForest.Dataset

/-! ### Background calls -/

namespace Operation

/-- The declarations of an operation are read from texts. -/
def IsRead : Operation → Prop
  | .setBackground _ background => ∀ decl ∈ background, decl.IsRead
  | _ => True

/-- The target and the declarations of a background call. -/
def call? : Operation → Option (String × List ModeDecl)
  | .setBackground target background => some (target, background)
  | _ => none

/-- The declaration from which a background call builds the target, unless the call is refused. -/
def declared? (op : Operation) : Option ModeDecl :=
  op.call?.bind fun call => call.2.find? (·.name = call.1)

end Operation

/-- The last background call of a history. -/
def lastCall (history : List Operation) : Option (String × List ModeDecl) :=
  (history.filterMap Operation.call?).getLast?

/-- The declaration of the target that was set last. -/
def lastDeclared (history : List Operation) : Option ModeDecl :=
  (history.filterMap Operation.declared?).getLast?

theorem lastCall_concat (history : List Operation) (op : Operation) :
    lastCall (history ++ [op]) = op.call?.or (lastCall history) := by
  unfold lastCall
  rw [List.filterMap_append, List.getLast?_append]
  cases hcall : op.call? <;> simp [hcall]

theorem lastDeclared_concat (history : List Operation) (op : Operation) :
    lastDeclared (history ++ [op]) = op.declared?.or (lastDeclared history) := by
  unfold lastDeclared
  rw [List.filterMap_append, List.getLast?_append]
  cases hdeclared : op.declared? <;> simp [hdeclared]

/-! ### Operations that are no background calls -/

/-- Two data sets have the same target, with the types of its variables, and the same literals. -/
structure SameBackground (d d' : Dataset) : Prop where
  target : d'.target = d.target
  literals : d'.literals = d.literals
  variableTypes : d'.variableTypes = d.variableTypes

theorem SameProblem.sameBackground {d d' : Dataset} (h : d.SameProblem d') : d.SameBackground d' :=
  ⟨h.target, h.literals, h.variableTypes⟩

variable {options : DataOptions} {history : List Operation}

/-- Only background calls change target and literals. -/
theorem sameBackground_apply (d : Dataset) {op : Operation} (h : op.call? = none) :
    d.SameBackground (op.apply d) := by
  cases op with
  | setFacts facts => exact ⟨rfl, rfl, rfl⟩
  | addPositives target texts => exact ⟨rfl, rfl, rfl⟩
  | addNegatives target texts => exact ⟨rfl, rfl, rfl⟩
  | addExamples target lines => exact (d.sameProblem_addExamples target lines).sameBackground
  | setBackground target background => cases h
  | addAdvice advice => exact ⟨rfl, rfl, rfl⟩
  | setValue text value => exact (d.sameProblem_setValue text value).sameBackground
  | updateGradients trees loss limit =>
      rw [Operation.apply]
      split
      · rename_i d' hupdate
        obtain ⟨values, rfl⟩ := exists_setValues_of_updateGradients hupdate
        exact (d.sameProblem_setValues values).sameBackground
      · exact ⟨rfl, rfl, rfl⟩
  | infer trees limit =>
      rw [Operation.apply]
      split
      · rename_i predictions d' hinfer
        obtain rfl := eq_setValues_of_infer hinfer
        exact (d.sameProblem_setValues predictions).sameBackground
      · exact ⟨rfl, rfl, rfl⟩

/-! ### Where target and literals come from -/

/-- The declarations of a background call from which tests are made. -/
def testable (target : String) (background : List ModeDecl) : List ModeDecl :=
  background.filter fun decl => decl.isLiteral ∧ decl.name ≠ target

theorem mem_testable {target : String} {background : List ModeDecl} {decl : ModeDecl} :
    decl ∈ testable target background ↔
      decl ∈ background ∧ decl.isLiteral = true ∧ decl.name ≠ target := by
  simp [testable]

theorem literals_setBackground (d : Dataset) (target : String) (background : List ModeDecl) :
    (d.setBackground target background).1.literals = testable target background := by
  unfold setBackground
  cases background.find? (·.name = target) <;> rfl

theorem target_setBackground (d : Dataset) (target : String) (background : List ModeDecl) :
    (d.setBackground target background).1.target =
      (background.find? (·.name = target)).elim d.target fun decl => (targetTerm decl).render := by
  unfold setBackground
  cases background.find? (·.name = target) <;> rfl

/-- The literals come from the last background call. -/
theorem literals_after : (after options history).literals =
    (lastCall history).elim [] fun call => testable call.1 call.2 := by
  induction history using List.reverseRecOn with
  | nil => rfl
  | append_singleton history op ih =>
      rw [after_concat, lastCall_concat]
      cases hcall : op.call? with
      | none =>
          rw [(sameBackground_apply _ hcall).literals, ih]
          rfl
      | some call =>
          cases op <;> cases hcall
          exact literals_setBackground _ _ _

theorem mem_literals_after {literal : ModeDecl} : literal ∈ (after options history).literals ↔
    ∃ target background, lastCall history = some (target, background) ∧
      literal ∈ background ∧ literal.isLiteral = true ∧ literal.name ≠ target := by
  rw [literals_after]
  cases lastCall history with
  | none => simp
  | some call =>
      constructor
      · intro h
        exact ⟨call.1, call.2, rfl, mem_testable.1 h⟩
      · rintro ⟨target, background, hcall, h⟩
        cases hcall
        exact mem_testable.2 h

/-- The target comes from the last background call that was not refused. -/
theorem target_after : (after options history).target =
    (lastDeclared history).elim "" fun decl => (targetTerm decl).render := by
  induction history using List.reverseRecOn with
  | nil => rfl
  | append_singleton history op ih =>
      rw [after_concat, lastDeclared_concat]
      cases hcall : op.call? with
      | none =>
          have hdeclared : op.declared? = none := by simp [Operation.declared?, hcall]
          rw [(sameBackground_apply _ hcall).target, ih, hdeclared]
          rfl
      | some call =>
          cases op <;> cases hcall
          rename_i target background
          rw [Operation.apply, target_setBackground, ih]
          cases hfind : background.find? (·.name = target) <;>
            simp [Operation.declared?, Operation.call?, hfind]

/-- A call that is not refused sets its own target. -/
theorem lastDeclared_of_lastCall {target : String} {background : List ModeDecl} {decl : ModeDecl}
    (hcall : lastCall history = some (target, background))
    (hfind : background.find? (·.name = target) = some decl) :
    lastDeclared history = some decl := by
  induction history using List.reverseRecOn with
  | nil => cases hcall
  | append_singleton history op ih =>
      rw [lastCall_concat] at hcall
      rw [lastDeclared_concat]
      cases hop : op.call? with
      | none =>
          have hdeclared : op.declared? = none := by simp [Operation.declared?, hop]
          rw [hop] at hcall
          rw [hdeclared]
          exact ih hcall
      | some call =>
          rw [hop] at hcall
          obtain rfl : call = (target, background) := by simpa using hcall
          simp [Operation.declared?, hop, hfind]

/-- The target that was set last was declared in some call. -/
theorem wellFormed_of_lastDeclared (hread : ∀ op ∈ history, op.IsRead) {decl : ModeDecl}
    (h : lastDeclared history = some decl) : decl.WellFormed := by
  obtain ⟨op, hop, hdeclared⟩ := List.mem_filterMap.1 (List.mem_of_getLast? h)
  obtain ⟨call, hcall, hfind⟩ := Option.bind_eq_some_iff.1 hdeclared
  cases op <;> cases hcall
  exact ModeDecl.wellFormed_of_isRead (hread _ hop decl (List.mem_of_find?_eq_some hfind))

/-- The literals were declared in the last call. -/
theorem wellFormed_of_mem_literals (hread : ∀ op ∈ history, op.IsRead) {literal : ModeDecl}
    (h : literal ∈ (after options history).literals) : literal.WellFormed := by
  obtain ⟨target, background, hcall, hmem, -⟩ := mem_literals_after.1 h
  obtain ⟨op, hop, hopcall⟩ := List.mem_filterMap.1 (List.mem_of_getLast? hcall)
  cases op <;> cases hopcall
  exact ModeDecl.wellFormed_of_isRead (hread _ hop literal hmem)

/-! ### The target term -/

/-- The target term is read back if its name opens no argument list and it has arguments at all. -/
theorem parse_render_targetTerm {decl : ModeDecl} (hname : '(' ∉ decl.name.toList)
    (hargs : decl.args ≠ []) : Term.parse (targetTerm decl).render = .ok (targetTerm decl) := by
  have hne : freshNames [] decl.arity ≠ [] := by
    rw [← List.length_pos_iff, length_freshNames]
    exact List.length_pos_iff.2 hargs
  exact Term.parse_render hname hne fun _ harg => .of_mem_freshNames harg

/-- The target term of a declaration that was read is read back. -/
theorem parse_targetTerm {decl : ModeDecl} (h : decl.WellFormed) :
    Term.parse (targetTerm decl).render = .ok (targetTerm decl) :=
  parse_render_targetTerm h.not_mem_name h.args_ne_nil

/-- So is the clause at the top of a tree. -/
theorem parseOpen_targetTerm {decl : ModeDecl} (h : decl.WellFormed) :
    Rule.parseOpen ((targetTerm decl).render ++ ":-") = .ok ⟨targetTerm decl, []⟩ := by
  have hclause : Leaf.renderClause ⟨targetTerm decl, []⟩ = (targetTerm decl).render ++ ":-" :=
    String.append_empty
  have hnamed : Rule.Named ⟨targetTerm decl, []⟩ := ⟨named_targetTerm h, by simp⟩
  rw [← hclause]
  exact hnamed.parseOpen_renderClause

/-- The target of a data set is the term of the declaration that was set last. -/
theorem parse_target_after_iff (hread : ∀ op ∈ history, op.IsRead) {target : Term} :
    Term.parse (after options history).target = .ok target ↔
      ∃ decl, lastDeclared history = some decl ∧ target = targetTerm decl := by
  rw [target_after]
  cases hdeclared : lastDeclared history with
  | none =>
      have hempty : Term.parse "" = .error ⟨"", .missingClosingParen⟩ := rfl
      simp [hempty]
  | some decl =>
      have hparse := parse_targetTerm (wellFormed_of_lastDeclared hread hdeclared)
      simp [hparse, eq_comm]

/-! ### Literals with the name of the target -/

/-- A literal that may be tested has the name of the target. -/
def NamesTarget (d : Dataset) : Prop :=
  ∃ literal ∈ d.literals, ∃ target, Term.parse d.target = .ok target ∧ literal.name = target.predicate

/-- A literal that is generated for some clause calls the target. -/
def CallsTarget (d : Dataset) : Prop :=
  ∃ clause exclude tests text test target,
    LanguageBias.candidates ⟨d.literals, d.variableTypes⟩ clause exclude = .ok tests ∧
      text ∈ tests ∧ Term.parse text = .ok test ∧ Term.parse d.target = .ok target ∧
        test.predicate = target.predicate

/-- A literal has the name of the target if the last call was for another target and declares a literal
with the name of the one that is set, and not otherwise. -/
theorem namesTarget_after_iff (hread : ∀ op ∈ history, op.IsRead) :
    (after options history).NamesTarget ↔ ∃ target background decl,
      lastCall history = some (target, background) ∧ lastDeclared history = some decl ∧
        decl.name ≠ target ∧
          ∃ literal ∈ background, literal.isLiteral = true ∧ literal.name = decl.name := by
  constructor
  · rintro ⟨literal, hliteral, target, htarget, hname⟩
    obtain ⟨decl, hdeclared, rfl⟩ := (parse_target_after_iff hread).1 htarget
    obtain ⟨called, background, hcall, hmem, hisLiteral, hne⟩ := mem_literals_after.1 hliteral
    refine ⟨called, background, decl, hcall, hdeclared, ?_, literal, hmem, hisLiteral, hname⟩
    rw [hname] at hne
    exact hne
  · rintro ⟨target, background, decl, hcall, hdeclared, hne, literal, hmem, hisLiteral, hname⟩
    have hliteral : literal ∈ (after options history).literals :=
      mem_literals_after.2 ⟨target, background, hcall, hmem, hisLiteral, hname ▸ hne⟩
    exact ⟨literal, hliteral, targetTerm decl,
      (parse_target_after_iff hread).2 ⟨decl, hdeclared, rfl⟩, hname⟩

/-- As long as the last call was not refused, no literal has the name of the target. -/
theorem not_namesTarget_after (hread : ∀ op ∈ history, op.IsRead) {target : String}
    {background : List ModeDecl} (hcall : lastCall history = some (target, background))
    (hdeclares : ∃ decl ∈ background, decl.name = target) :
    ¬ (after options history).NamesTarget := by
  intro h
  obtain ⟨target', background', decl, hcall', hdeclared, hne, -⟩ := (namesTarget_after_iff hread).1 h
  cases hcall.symm.trans hcall'
  obtain ⟨found, hfind⟩ : ∃ found, background.find? (·.name = target) = some found :=
    Option.isSome_iff_exists.1 (List.find?_isSome.2 (by simpa using hdeclares))
  cases (lastDeclared_of_lastCall hcall hfind).symm.trans hdeclared
  exact hne (by simpa using List.find?_some hfind)

/-- Literals with the name of the target are exactly what makes a generated literal call it. -/
theorem callsTarget_after_iff (hread : ∀ op ∈ history, op.IsRead) :
    (after options history).CallsTarget ↔ (after options history).NamesTarget := by
  constructor
  · rintro ⟨clause, exclude, tests, text, test, target, htests, htext, htest, htarget, hname⟩
    have hnames : ∀ literal ∈ (after options history).literals, '(' ∉ literal.name.toList :=
      fun literal hliteral => (wellFormed_of_mem_literals hread hliteral).not_mem_name
    obtain ⟨literal, hliteral, hpredicate⟩ :=
      LanguageBias.predicate_of_mem_candidates htests htext hnames htest
    exact ⟨literal, hliteral, target, htarget, hpredicate.symm.trans hname⟩
  · rintro ⟨literal, hliteral, target, htarget, hname⟩
    obtain ⟨decl, hdeclared, rfl⟩ := (parse_target_after_iff hread).1 htarget
    have hdecl := wellFormed_of_lastDeclared hread hdeclared
    -- at the top of a tree every variable is one of the target
    have hvars : ∀ var ∈ Rule.variables ⟨targetTerm decl, []⟩, Term.ReadsBack var := by
      intro var hvar
      have hmem : var ∈ freshNames [] decl.arity := by
        simpa [Rule.reusableTokens, targetTerm] using Rule.mem_variables_iff.1 hvar
      exact .of_mem_freshNames hmem
    obtain ⟨called, background, hcall, -, hisLiteral, -⟩ := mem_literals_after.1 hliteral
    obtain ⟨tests, htests, test, hmem, htest, hpredicate⟩ :=
      LanguageBias.exists_mem_candidates ⟨(after options history).literals, _⟩
        (parseOpen_targetTerm hdecl) hvars hliteral hisLiteral
        (wellFormed_of_mem_literals hread hliteral)
    exact ⟨_, _, tests, _, test, _, htests, hmem, htest, htarget, hpredicate.trans hname⟩

/-- **When a clause can call its target.**  After any history, failed operations included, a literal that
may be tested has the name of the target if and only if the last background call was for another target
and declares a literal with the name of the one that is still set.  In exactly these cases a literal that
calls the target is generated for some clause.  If the last background call was not refused, this is
none of the cases. -/
theorem callsTarget_after (options : DataOptions) (history : List Operation)
    (hread : ∀ op ∈ history, op.IsRead) :
    ((after options history).NamesTarget ↔ ∃ target background decl,
      lastCall history = some (target, background) ∧ lastDeclared history = some decl ∧
        decl.name ≠ target ∧
          ∃ literal ∈ background, literal.isLiteral = true ∧ literal.name = decl.name) ∧
    ((after options history).CallsTarget ↔ (after options history).NamesTarget) ∧
    ∀ target background, lastCall history = some (target, background) →
      (∃ decl ∈ background, decl.name = target) → ¬ (after options history).NamesTarget := by
  refine ⟨namesTarget_after_iff hread, callsTarget_after_iff hread, ?_⟩
  intro target background hcall hdeclares
  exact not_namesTarget_after hread hcall hdeclares

/-! ### A refused call -/

/-- The declaration of a target about a person. -/
def personDecl (name : String) : ModeDecl := ⟨name, [.typed (some .input) "person"]⟩

/-- A target is set, and then a call for another target is refused, since it declares only the first. -/
def refusedHistory : List Operation :=
  [.setBackground "cancer" [personDecl "cancer"], .setBackground "smokes" [personDecl "cancer"]]

/-- The second target is declared after all. -/
def mendedHistory : List Operation :=
  refusedHistory ++ [.setBackground "smokes" [personDecl "cancer", personDecl "smokes"]]

theorem isRead_mendedHistory : ∀ op ∈ mendedHistory, op.IsRead := by
  have hcancer : (personDecl "cancer").IsRead := ⟨"cancer(+person)", .inl (by decide +kernel)⟩
  have hsmokes : (personDecl "smokes").IsRead := ⟨"smokes(+person)", .inl (by decide +kernel)⟩
  simp [mendedHistory, refusedHistory, Operation.IsRead, hcancer, hsmokes]

/-- After the refused call a literal that calls the target is generated, and after the accepted one
none. -/
theorem callsTarget_after_refused :
    (∀ op ∈ refusedHistory, op.IsRead) ∧ (after .default refusedHistory).CallsTarget ∧
      (∀ op ∈ mendedHistory, op.IsRead) ∧ ¬ (after .default mendedHistory).CallsTarget := by
  have hread : ∀ op ∈ refusedHistory, op.IsRead :=
    fun op hop => isRead_mendedHistory op (List.mem_append_left _ hop)
  obtain ⟨hnames, hcalls, -⟩ := callsTarget_after .default refusedHistory hread
  obtain ⟨-, hcalls', haccepted⟩ := callsTarget_after .default mendedHistory isRead_mendedHistory
  have hrefused : (after .default refusedHistory).NamesTarget :=
    hnames.2 ⟨"smokes", [personDecl "cancer"], personDecl "cancer", by decide +kernel,
      by decide +kernel, by decide, by decide⟩
  have hmended : ¬ (after .default mendedHistory).NamesTarget :=
    haccepted "smokes" [personDecl "cancer", personDecl "smokes"] (by decide +kernel) (by decide)
  exact ⟨hread, hcalls.2 hrefused, isRead_mendedHistory, fun h => hmended (hcalls'.1 h)⟩

/-- There are histories after which a literal has the name of the target: a refused call leaves one. -/
theorem not_forall_not_namesTarget :
    ¬ ∀ (options : DataOptions) (history : List Operation), (∀ op ∈ history, op.IsRead) →
      ¬ (after options history).NamesTarget := by
  intro h
  have hread : ∀ op ∈ refusedHistory, op.IsRead :=
    fun op hop => isRead_mendedHistory op (List.mem_append_left _ hop)
  have hliteral : personDecl "cancer" ∈ (after .default refusedHistory).literals := by
    decide +kernel
  have htarget : Term.parse (after .default refusedHistory).target = .ok ⟨"cancer", ["A"]⟩ := by
    decide +kernel
  exact h .default refusedHistory hread ⟨personDecl "cancer", hliteral, _, htarget, rfl⟩

end ClauseForest.Dataset
