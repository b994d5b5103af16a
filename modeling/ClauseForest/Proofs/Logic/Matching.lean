/-
**What matching does to bindings**

Bindings only grow, and only constants are handed on.  Matching never fails, and never binds anything
wrong, as long as both sides are on the way to one and the same instance.

When the pattern is a literal that waits for an answer, its arguments may repeat a variable that has
no value yet.  Only then can an answer be at odds with itself, and every other literal takes over
the values of an answer in full.

Main definitions:

* `b ≤ c` — the bindings `c` have all values of `b`;
* `Term.Distinct` — a term that repeats no variable without a value.

Main results:

* `le_unify` — bindings only grow;
* `isGround_unify` — only constants are handed on;
* `respects_unify` — **two sides with a common instance match**, and the bindings stay on the way to
  it;
* `valuesIn_unify` — **an answer is taken over in full** by a literal that repeats no variable
  without a value.
-/

import ClauseForest.Proofs.Logic.Unification
import Mathlib.Data.List.Zip

set_option relaxedAutoImplicit false
set_option autoImplicit false

namespace ClauseForest

/-! ### Growth of bindings -/

namespace Bindings

instance : LE Bindings where
  le b c := ∀ token value, b.valueOf token = some value → c.valueOf token = some value

theorem le_refl (b : Bindings) : b ≤ b := fun _ _ h => h

end Bindings

theorem Term.ValuesIn.mono {t : Term} {b c : Bindings} {values : List String}
    (h : t.ValuesIn b values) (hbc : b ≤ c) : t.ValuesIn c values := by
  have hvalues : t.args.map c.valueOf = t.args.map b.valueOf := by
    refine List.map_congr_left fun arg harg => ?_
    obtain ⟨value, hvalue⟩ := Option.isSome_iff_exists.1 (h.isSome arg harg)
    rw [hvalue, hbc arg value hvalue]
  exact hvalues.trans h

/-! ### Bindings only grow -/

/-- Bindings only grow. -/
theorem le_unify (term : Term) (source : Bindings) (pattern : Term) (target : Bindings) :
    target ≤ (unify term source pattern target).bindings :=
  fun _ _ => (extends_unify term source pattern target).valueOf

/-- Only constants are handed on. -/
theorem isGround_unify {source : Bindings} (hs : source.IsGround) (term pattern : Term)
    {target : Bindings} (ht : target.IsGround) :
    (unify term source pattern target).bindings.IsGround := by
  intro token value hvalue
  rcases valueOf_unify_cases hvalue with hold | ⟨pair, -, -, hasked⟩
  · exact ht token value hold
  · exact hs pair.1 value hasked

/-! ### Sides with a common instance -/

namespace Grounding

theorem respects_empty (θ : Grounding) : θ.Respects .empty := by
  intro token value h
  obtain ⟨hc, rfl⟩ := Bindings.valueOf_empty h
  exact θ.token_of_constant hc

theorem Respects.mono {θ : Grounding} {b c : Bindings} (hc : θ.Respects c) (h : b ≤ c) :
    θ.Respects b := fun token value hb => hc token value (h token value hb)

end Grounding

/-- Two sides with a common instance match, and the bindings stay on the way to it. -/
theorem respects_unify {θ θ' : Grounding} {term pattern : Term} {source target : Bindings}
    (hs : θ.Respects source) (ht : θ'.Respects target) (h : θ.term term = θ'.term pattern) :
    (unify term source pattern target).agrees = true ∧
      θ'.Respects (unify term source pattern target).bindings := by
  obtain ⟨hpredicate, hargs⟩ := Term.mk.inj h
  have harity : term.arity = pattern.arity := by
    have hlength := congrArg List.length hargs
    simpa [Term.arity] using hlength
  rw [← List.forall₂_eq_eq_eq, List.forall₂_map_left_iff, List.forall₂_map_right_iff] at hargs
  -- what stands against a value is sent to this value
  have hasks : ∀ pair ∈ term.args.zip pattern.args, ∀ value, source.valueOf pair.1 = some value →
      θ'.token pair.2 = value :=
    fun pair hpair value hvalue => (List.forall₂_zip hargs hpair).symm.trans (hs _ _ hvalue)
  constructor
  · refine agrees_unify_iff.2 ⟨hpredicate, harity, ?_, ?_⟩
    · intro pair hpair value bound hvalue hbound
      exact (ht _ _ hbound).symm.trans (hasks pair hpair value hvalue)
    · intro pair hpair other hother heq value value' hvalue hvalue'
      rw [← hasks pair hpair value hvalue, heq, hasks other hother value' hvalue']
  · intro token value hvalue
    rcases valueOf_unify_cases hvalue with hold | ⟨pair, hpair, rfl, hasked⟩
    · exact ht token value hold
    · exact hasks pair hpair value hasked

/-- A term matches itself, whatever values it has on one side. -/
theorem agrees_unify_self {b : Bindings} (hb : b.IsGround) (t : Term) :
    (unify t b t .empty).agrees = true := by
  have hsame : (b.grounding hb).term t = (b.grounding hb).term t := rfl
  exact (respects_unify (Bindings.respects_grounding hb) (Grounding.respects_empty _) hsame).1

/-! ### Taking over an answer -/

/-- The term repeats no variable without a value. -/
def Term.Distinct (t : Term) (b : Bindings) : Prop :=
  ∀ var, b.valueOf var = none → t.args.count var ≤ 1

/-- An answer is taken over in full by a literal that repeats no variable without a value. -/
theorem valuesIn_unify {term pattern : Term} {source target : Bindings} {values : List String}
    (hpredicate : term.predicate = pattern.predicate) (harity : term.arity = pattern.arity)
    (hvalues : term.ValuesIn source values)
    (hcompat : ∀ pair ∈ pattern.args.zip term.args, ∀ value, target.valueOf pair.1 = some value →
      source.valueOf pair.2 = some value)
    (hdistinct : pattern.Distinct target) :
    pattern.ValuesIn (unify term source pattern target).bindings values := by
  have hagrees : (unify term source pattern target).agrees = true := by
    refine agrees_unify_iff.2 ⟨hpredicate, harity, (compatible_iff_of_count_le_one hdistinct).2 ?_⟩
    intro pair hpair value bound hvalue hbound
    have hswap : pair.swap ∈ pattern.args.zip term.args := by
      rw [← List.zip_swap]
      exact List.mem_map_of_mem hpair
    exact Option.some.inj ((hcompat pair.swap hswap bound hbound).symm.trans hvalue)
  have hlength : term.args.length = values.length := by
    simpa using congrArg List.length hvalues
  have hslots : pattern.args.length = values.length := harity.symm.trans hlength
  refine List.ext_getElem (by simpa using hslots) fun i hi hi' => ?_
  rw [List.length_map] at hi hi'
  have hargument : i < term.args.length := hlength ▸ hi'
  have hvalue : source.valueOf term.args[i] = some values[i] := by
    have h := congrArg (·[i]?) hvalues
    simpa [hargument, hi'] using h
  have hpair : (term.args[i], pattern.args[i]) ∈ term.args.zip pattern.args := by
    have hi : i < (term.args.zip pattern.args).length := by
      rw [List.length_zip]
      exact Nat.lt_min.2 ⟨hargument, hi⟩
    rw [← List.getElem_zip (h := hi)]
    exact List.getElem_mem _
  simpa using valueOf_of_unify hagrees _ hpair _ hvalue

end ClauseForest
