/-
**Well typed clauses**

A declaration gives types to the places of its literals, and a clause is well typed if its variables can
be given types once and for all, such that every place with a type holds a variable of that type.  This
does not depend on the order of the literals, while the types that are recorded for a clause come from
the first places at which its variables stand.  In a well typed clause the order is of no consequence:
whatever type is recorded for a variable is the one that it was given.

A literal that may extend a clause keeps it well typed.  A variable that is used again has the type of
its new place by what was recorded; a new variable has no other place in the clause, and only one in the
literal, so it can be given the type of that place.

Main definitions:

* `ModeDecl.typeAt?` — the type that a declaration gives to a place;
* `Uniform` — declarations of the same literals give the same types;
* `Term.Fits` — the places of a literal hold variables of the declared types;
* `LanguageBias.WellTyped` — a clause is well typed under an assignment of types.

Main results:

* `LanguageBias.WellTyped.eq_of_recordedType?` — a recorded type is the one that was assigned;
* `LanguageBias.WellTyped.fits_of_mem_combinations` — the literals that may extend a clause fit an
  assignment that agrees on the variables of the clause;
* `LanguageBias.WellTyped.extend` — **a clause stays well typed when it is extended**, at either end.
-/

import ClauseForest.Proofs.Refinement.Candidates

set_option relaxedAutoImplicit false
set_option autoImplicit false

namespace ClauseForest

/-! ### Places -/

/-- The type that a declaration gives to a place.  A place for constants has none. -/
def ModeDecl.typeAt? (decl : ModeDecl) (i : Nat) : Option String := decl.args[i]?.bind ArgSpec.type?

/-- A declaration is one of a literal: it has its name and its number of arguments. -/
def ModeDecl.Declares (decl : ModeDecl) (literal : Term) : Prop :=
  decl.name = literal.predicate ∧ decl.arity = literal.arity

/-- Declarations of the same name with the same number of arguments give the same types to the same
places. -/
def Uniform (decls : List ModeDecl) : Prop :=
  ∀ decl ∈ decls, ∀ other ∈ decls, decl.name = other.name → decl.arity = other.arity →
    ∀ i, decl.typeAt? i = other.typeAt? i

/-- The places of a literal to which a declaration gives types hold variables of these types. -/
def Term.Fits (types : String → String) (literal : Term) (decl : ModeDecl) : Prop :=
  ∀ (i : Nat) (arg type : String), literal.args[i]? = some arg → decl.typeAt? i = some type →
    isClauseVariable arg = true ∧ types arg = type

theorem Term.Fits.congr {types : String → String} {literal : Term} {decl other : ModeDecl}
    (h : literal.Fits types decl) (htypes : ∀ i, decl.typeAt? i = other.typeAt? i) :
    literal.Fits types other :=
  fun i arg type harg htype => h i arg type harg ((htypes i).trans htype)

namespace LanguageBias

variable {bias : LanguageBias} {clause : Rule} {types : String → String}

theorem declares_of_declOf? {literal : Term} {decl : ModeDecl}
    (h : bias.declOf? literal = some decl) : decl ∈ bias.background ∧ decl.Declares literal :=
  ⟨List.mem_of_find?_eq_some h, by simpa [ModeDecl.Declares] using List.find?_some h⟩

/-- The typed places of a literal are those of its first declaration. -/
theorem exists_of_mem_occurrences {literal : Term} {arg type : String}
    (h : (arg, type) ∈ bias.occurrences literal) : ∃ decl ∈ bias.background, decl.Declares literal ∧
      ∃ i, literal.args[i]? = some arg ∧ decl.typeAt? i = some type := by
  unfold occurrences at h
  cases hdecl : bias.declOf? literal with
  | none => simp [hdecl] at h
  | some decl =>
      rw [hdecl] at h
      obtain ⟨⟨found, spec⟩, hpair, htype⟩ := List.mem_filterMap.1 h
      obtain ⟨type', hspec, heq⟩ := Option.map_eq_some_iff.1 htype
      cases heq
      obtain ⟨i, hi⟩ := List.mem_iff_getElem?.1 hpair
      obtain ⟨harg, hspecAt⟩ := List.getElem?_zip_eq_some.1 hi
      obtain ⟨hmem, hdeclares⟩ := declares_of_declOf? hdecl
      exact ⟨decl, hmem, hdeclares, i, harg, by simp [ModeDecl.typeAt?, hspecAt, hspec]⟩

/-! ### Clauses -/

/-- A clause is well typed: the variables of its head have the types of the target, every literal is
declared, and its places hold variables of the types that its declarations give to them. -/
structure WellTyped (bias : LanguageBias) (types : String → String) (clause : Rule) : Prop where
  isClauseVariable : ∀ var ∈ clause.head.args, isClauseVariable var = true
  head : ∀ var ∈ clause.head.args, ∀ type, bias.targetTypes.get? var = some type → types var = type
  declared : ∀ literal ∈ clause.body, ∃ decl ∈ bias.background, decl.Declares literal
  body : ∀ literal ∈ clause.body, ∀ decl ∈ bias.background, decl.Declares literal →
    literal.Fits types decl

namespace WellTyped

/-- A recorded type is the one that was assigned. -/
theorem eq_of_recordedType? (h : bias.WellTyped types clause) {var type : String}
    (htype : bias.recordedType? clause var = some type) : types var = type := by
  unfold recordedType? at htype
  split at htype
  · rename_i hhead
    exact h.head var hhead.1 type htype
  · split at htype
    · obtain ⟨front, back, heq, -⟩ := List.lookup_eq_some_iff.1 htype
      have hmem : (var, type) ∈ clause.body.flatMap bias.occurrences := by simp [heq]
      obtain ⟨literal, hliteral, hplace⟩ := List.mem_flatMap.1 hmem
      obtain ⟨decl, hdecl, hdeclares, i, harg, htypeAt⟩ := exists_of_mem_occurrences hplace
      exact (h.body literal hliteral decl hdecl hdeclares i var type harg htypeAt).2
    · cases htype

/-- The variables of the clause are variables of the learner's own form. -/
theorem isClauseVariable_of_mem_variables (h : bias.WellTyped types clause) {var : String}
    (hvar : var ∈ clause.variables) : ClauseForest.isClauseVariable var = true := by
  rcases List.mem_append.1 (Rule.mem_variables_iff.1 hvar) with hhead | hbody
  · exact h.isClauseVariable var hhead
  · exact (List.mem_filter.1 hbody).2

end WellTyped

/-! ### New variables -/

variable {decl : ModeDecl} {new : Fin decl.args.length → String}

/-- An assignment that gives new names the types of the places that take them. -/
def assignNew (bias : LanguageBias) (clause : Rule) (types : String → String) (decl : ModeDecl)
    (new : Fin decl.args.length → String) (var : String) : String :=
  match (List.finRange decl.args.length).find? fun i =>
    bias.TakesNew clause decl.args[i] ∧ new i = var with
  | some i => (decl.typeAt? i).getD ""
  | none => types var

theorem assignNew_of_takesNew (hnew : bias.AreNew clause decl.args new)
    {i : Fin decl.args.length} (hi : bias.TakesNew clause decl.args[i]) :
    bias.assignNew clause types decl new (new i) = (decl.typeAt? i).getD "" := by
  unfold assignNew
  cases hfind : (List.finRange decl.args.length).find? fun j =>
      bias.TakesNew clause decl.args[j] ∧ new j = new i with
  | none =>
      have hall := List.find?_eq_none.1 hfind i (List.mem_finRange i)
      exact absurd hi (by simpa using hall)
  | some j =>
      have hj : bias.TakesNew clause decl.args[j] ∧ new j = new i := by
        simpa using List.find?_some hfind
      -- the name of a place is the name of no other one
      obtain rfl : j = i := by
        by_contra hne
        exact hnew.ne j i hne hj.1 hi hj.2
      rfl

theorem assignNew_of_mem_variables (hnew : bias.AreNew clause decl.args new) {var : String}
    (hvar : var ∈ clause.variables) : bias.assignNew clause types decl new var = types var := by
  unfold assignNew
  have hnone : (List.finRange decl.args.length).find? (fun i =>
      bias.TakesNew clause decl.args[i] ∧ new i = var) = none := by
    refine List.find?_eq_none.2 fun i _ hi => ?_
    have hi : bias.TakesNew clause decl.args[i] ∧ new i = var := by simpa using hi
    have hfree := hnew.not_mem_args i
    rcases List.mem_append.1 (Rule.mem_variables_iff.1 hvar) with hhead | hbody
    · exact hfree clause.head (by simp) (hi.2 ▸ hhead)
    · obtain ⟨literal, hliteral, hmem⟩ := List.mem_flatMap.1 (List.mem_filter.1 hbody).1
      exact hfree literal (List.mem_cons_of_mem _ hliteral) (hi.2 ▸ hmem)
  rw [hnone]

/-! ### Literals that extend a clause -/

/-- What fills a place. -/
theorem mem_slot_of_mem_combinations {args : List String}
    (hargs : args ∈ combinations (bias.slots clause decl.args new)) {i : Nat} {arg : String}
    (harg : args[i]? = some arg) :
    ∃ hi : i < decl.args.length, arg ∈ bias.slot clause (new ⟨i, hi⟩) decl.args[i] := by
  obtain ⟨hlength, hmem⟩ := mem_combinations.1 hargs
  obtain ⟨hi, rfl⟩ := List.getElem?_eq_some_iff.1 harg
  have hslots : i < (bias.slots clause decl.args new).length := hlength ▸ hi
  have hplace : i < decl.args.length := by rwa [length_slots] at hslots
  have hpair := hmem (args[i], (bias.slots clause decl.args new)[i])
    (List.mem_iff_getElem?.2 ⟨i, List.getElem?_zip_eq_some.2
      ⟨List.getElem?_eq_getElem hi, List.getElem?_eq_getElem hslots⟩⟩)
  exact ⟨hplace, by simpa [slots] using hpair⟩

namespace WellTyped

/-- A literal of a declaration that may extend a well typed clause fits an assignment that agrees with
that of the clause on its variables. -/
theorem fits_of_mem_combinations (h : bias.WellTyped types clause)
    (hnew : bias.AreNew clause decl.args new) {args : List String}
    (hargs : args ∈ combinations (bias.slots clause decl.args new)) :
    Term.Fits (bias.assignNew clause types decl new) ⟨decl.name, args⟩ decl := by
  intro i arg type harg htype
  obtain ⟨hi, hslot⟩ := mem_slot_of_mem_combinations hargs harg
  cases hspec : decl.args[i] with
  | oneOf constants => simp [ModeDecl.typeAt?, hi, hspec, ArgSpec.type?] at htype
  | typed mode declared =>
      obtain rfl : declared = type := by
        simpa [ModeDecl.typeAt?, hi, hspec, ArgSpec.type?] using htype
      rw [hspec] at hslot
      by_cases htakes : bias.TakesNew clause (.typed mode declared)
      · -- a new variable, which has the type of its place
        rw [slot, if_pos htakes, List.mem_singleton] at hslot
        subst hslot
        have htakes : bias.TakesNew clause decl.args[(⟨i, hi⟩ : Fin decl.args.length)] := by
          simpa [hspec] using htakes
        refine ⟨hnew.isClauseVariable _, ?_⟩
        rw [assignNew_of_takesNew hnew htakes, htype, Option.getD_some]
      · -- a variable of the clause, for which this type is recorded
        rw [slot, if_neg htakes] at hslot
        obtain ⟨hvar, hrecorded⟩ := List.mem_filter.1 hslot
        refine ⟨h.isClauseVariable_of_mem_variables hvar, ?_⟩
        rw [assignNew_of_mem_variables hnew hvar]
        exact h.eq_of_recordedType? (of_decide_eq_true hrecorded)

/-- An assignment that agrees on the variables of a clause serves as well. -/
theorem congr (h : bias.WellTyped types clause) {other : String → String}
    (hagree : ∀ var ∈ clause.variables, other var = types var) : bias.WellTyped other clause where
  isClauseVariable := h.isClauseVariable
  head var hvar type htype := by
    rw [hagree var (Rule.mem_variables_iff.2 (List.mem_append_left _ hvar))]
    exact h.head var hvar type htype
  declared := h.declared
  body literal hliteral decl hdecl hdeclares i arg type harg htype := by
    obtain ⟨hvariable, heq⟩ := h.body literal hliteral decl hdecl hdeclares i arg type harg htype
    have hbody := List.mem_flatMap.2 ⟨literal, hliteral, List.mem_of_getElem? harg⟩
    have hmem : arg ∈ clause.variables :=
      Rule.mem_variables_iff.2 (List.mem_append_right _ (List.mem_filter.2 ⟨hbody, hvariable⟩))
    exact ⟨hvariable, (hagree arg hmem).trans heq⟩

/-- A clause stays well typed when it is extended, wherever the new literal is put. -/
theorem extend (h : bias.WellTyped types clause) (hbias : Uniform bias.background)
    (hdecl : decl ∈ bias.background) (hnew : bias.AreNew clause decl.args new) {args : List String}
    (hargs : args ∈ combinations (bias.slots clause decl.args new)) {body : List Term}
    (hbody : ∀ literal ∈ body, literal = ⟨decl.name, args⟩ ∨ literal ∈ clause.body) :
    bias.WellTyped (bias.assignNew clause types decl new) ⟨clause.head, body⟩ := by
  have hold : bias.WellTyped (bias.assignNew clause types decl new) clause :=
    h.congr fun var => assignNew_of_mem_variables hnew
  have hdeclares : decl.Declares ⟨decl.name, args⟩ := by
    refine ⟨rfl, ?_⟩
    rw [Term.arity, (mem_combinations.1 hargs).1, length_slots, ModeDecl.arity]
  refine ⟨hold.isClauseVariable, hold.head, fun literal hliteral => ?_,
    fun literal hliteral other hother hothers => ?_⟩
  · rcases hbody literal hliteral with rfl | hmem
    · exact ⟨decl, hdecl, hdeclares⟩
    · exact hold.declared literal hmem
  · rcases hbody literal hliteral with rfl | hmem
    · refine (h.fits_of_mem_combinations hnew hargs).congr ?_
      exact hbias decl hdecl other hother hothers.1.symm (hdeclares.2.trans hothers.2.symm)
    · exact hold.body literal hmem other hother hothers

end WellTyped

end LanguageBias

end ClauseForest
