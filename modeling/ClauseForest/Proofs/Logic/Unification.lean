/-
**What unification computes**

Matching goes through the arguments from left to right, binds variables of the pattern as it meets
them and stops at the first disagreement.  What it computes can be said without this order.  The
values of the term ask for something: every argument of the pattern that stands against a value must
have this value, by itself or by bindings that keep all values there are.  Matching succeeds exactly
if this can be met, that is, if no two values stand against each other; and then it adds just the
bindings that are asked for.

All this is about the values that are seen.  A variable bound to the empty token has none, and an
argument of the term that has none asks for nothing.

Main definitions:

* `Bindings.Extends` — bindings that have all values of others;
* `Bindings.Solves` — bindings that meet what a term asks of a pattern;
* `Term.Rearranges` — two terms with the same arguments against each other, in another order.

Main results:

* `extends_unify`, `get?_unify_cases` — what is bound stays bound, and every new value is asked for;
* `valueOf_of_unify` — **what the term gives, the pattern has**;
* `agrees_unify_iff` — matching succeeds exactly if no two values stand against each other;
* `unify_isLeast` — **matching finds the least solution**, if there is one.
-/

import ClauseForest.Proofs.Logic.Grounding
import Mathlib.Data.List.Forall2

set_option relaxedAutoImplicit false
set_option autoImplicit false

namespace ClauseForest

/-! ### Bindings with more values -/

namespace Bindings

/-- Bindings that have all values of others, and perhaps more. -/
def Extends (c b : Bindings) : Prop :=
  ∀ var value, b.get? var = some value → c.get? var = some value

variable {b c d : Bindings}

theorem Extends.refl (b : Bindings) : b.Extends b := fun _ _ h => h

theorem Extends.trans (hdc : d.Extends c) (hcb : c.Extends b) : d.Extends b :=
  fun var value h => hdc var value (hcb var value h)

/-- Bindings that extend each other have the same values. -/
theorem Extends.get?_eq (hcb : c.Extends b) (hbc : b.Extends c) (var : String) :
    c.get? var = b.get? var := by
  refine Option.ext fun value => ?_
  exact ⟨hbc var value, hcb var value⟩

theorem Extends.valueOf (h : c.Extends b) {token value : String}
    (hvalue : b.valueOf token = some value) : c.valueOf token = some value := by
  cases hv : isVariable token with
  | true =>
      rw [valueOf_of_isVariable _ hv] at hvalue ⊢
      exact h token value hvalue
  | false =>
      rw [valueOf_of_constant _ hv] at hvalue ⊢
      exact hvalue

/-- A variable without a value may be bound. -/
theorem extends_bind {var : String} (h : b.get? var = none) (value : String) :
    (b.bind var value).Extends b := by
  intro token found hfound
  have hne : token ≠ var := by
    rintro rfl
    rw [h] at hfound
    cases hfound
  rwa [b.get?_bind_of_ne value hne]

/-- The empty token is no value. -/
theorem ne_empty_of_valueOf {token value : String} (h : b.valueOf token = some value) :
    value ≠ "" := by
  cases hv : isVariable token with
  | true =>
      rw [valueOf_of_isVariable _ hv] at h
      exact of_decide_eq_true (Option.filter_eq_some_iff.1 h).2
  | false =>
      rw [valueOf_of_constant _ hv] at h
      exact Option.some.inj h ▸ ne_empty_of_constant hv

theorem get?_eq_none_of_valueOf {token : String} (h : b.valueOf token = none) :
    b.get? token = none := by
  rwa [valueOf_of_isVariable _ (isVariable_of_valueOf_eq_none h)] at h

end Bindings

/-! ### One pair of arguments -/

/-- A pair of arguments is settled by the two values that stand against each other. -/
theorem unifyArgs_cons (source : Bindings) (arg : String) (args : List String) (slot : String)
    (slots : List String) (target : Bindings) :
    unifyArgs source (arg :: args) (slot :: slots) target =
      match source.valueOf arg with
      | none => unifyArgs source args slots target
      | some value =>
        match target.valueOf slot with
        | none => unifyArgs source args slots (target.bind slot value)
        | some bound =>
          if bound = value then unifyArgs source args slots target else ⟨false, target⟩ := by
  rw [unifyArgs]
  cases source.valueOf arg with
  | none => rfl
  | some value =>
      cases hv : isVariable slot with
      | true =>
          rw [target.valueOf_of_isVariable hv]
          cases target.get? slot <;> rfl
      | false => simp [target.valueOf_of_constant hv]

/-! ### What is bound -/

section

variable {source target : Bindings} {args slots : List String}

theorem extends_unifyArgs (source : Bindings) (args slots : List String) (target : Bindings) :
    (unifyArgs source args slots target).bindings.Extends target := by
  induction args generalizing slots target with
  | nil => exact .refl target
  | cons arg args ih =>
      cases slots with
      | nil => exact .refl target
      | cons slot slots =>
          rw [unifyArgs_cons]
          split
          · exact ih slots target
          · rename_i value hvalue
            split
            · rename_i hslot
              exact (ih slots _).trans
                (Bindings.extends_bind (Bindings.get?_eq_none_of_valueOf hslot) value)
            · split
              · exact ih slots target
              · exact .refl target

/-- Every value afterwards was there before, or is asked for by an argument. -/
theorem get?_unifyArgs_cases {var value : String}
    (h : (unifyArgs source args slots target).bindings.get? var = some value) :
    target.get? var = some value ∨ (target.get? var = none ∧ isVariable var = true ∧
      ∃ pair ∈ args.zip slots, pair.2 = var ∧ source.valueOf pair.1 = some value) := by
  induction args generalizing slots target with
  | nil => exact .inl h
  | cons arg args ih =>
      cases slots with
      | nil => exact .inl h
      | cons slot slots =>
          have hmore : (target.get? var = some value ∨ (target.get? var = none ∧
              isVariable var = true ∧
              ∃ pair ∈ args.zip slots, pair.2 = var ∧ source.valueOf pair.1 = some value)) →
              target.get? var = some value ∨ (target.get? var = none ∧ isVariable var = true ∧
                ∃ pair ∈ (arg :: args).zip (slot :: slots),
                  pair.2 = var ∧ source.valueOf pair.1 = some value) := by
            rintro (hold | ⟨hnone, hvar, pair, hpair, hasked⟩)
            · exact .inl hold
            · exact .inr ⟨hnone, hvar, pair, List.mem_cons_of_mem _ hpair, hasked⟩
          rw [unifyArgs_cons] at h
          split at h
          · exact hmore (ih h)
          · rename_i asked hasked
            split at h
            · rename_i hslot
              by_cases hvar : var = slot
              · -- the variable gets its value here, and keeps it
                subst hvar
                have hself := target.get?_bind_self var (Bindings.ne_empty_of_valueOf hasked)
                rw [extends_unifyArgs _ _ _ _ _ _ hself] at h
                cases h
                exact .inr ⟨Bindings.get?_eq_none_of_valueOf hslot,
                  Bindings.isVariable_of_valueOf_eq_none hslot, (arg, var), by simp, rfl, hasked⟩
              · have hother := ih h
                rw [target.get?_bind_of_ne asked hvar] at hother
                exact hmore hother
            · split at h
              · exact hmore (ih h)
              · exact .inl h

/-! ### What is given -/

theorem valueOf_of_unifyArgs (h : (unifyArgs source args slots target).agrees = true) :
    ∀ pair ∈ args.zip slots, ∀ value, source.valueOf pair.1 = some value →
      (unifyArgs source args slots target).bindings.valueOf pair.2 = some value := by
  induction args generalizing slots target with
  | nil => simp
  | cons arg args ih =>
      cases slots with
      | nil => simp
      | cons slot slots =>
          intro pair hpair value hvalue
          rw [unifyArgs_cons] at h ⊢
          -- the pair at the front is settled at once, and what is bound then stays bound
          rcases List.mem_cons.1 (List.zip_cons_cons ▸ hpair) with rfl | hpair
          · simp only [hvalue] at h ⊢
            split at h
            · rename_i hslot
              refine (extends_unifyArgs _ _ _ _).valueOf ?_
              exact target.valueOf_bind_self (Bindings.isVariable_of_valueOf_eq_none hslot)
                (Bindings.ne_empty_of_valueOf hvalue)
            · rename_i bound hslot
              split at h
              · rename_i hbound
                subst hbound
                rw [if_pos rfl]
                exact (extends_unifyArgs _ _ _ _).valueOf hslot
              · exact absurd h (by simp)
          · split at h
            · exact ih h pair hpair value hvalue
            · split at h
              · exact ih h pair hpair value hvalue
              · split at h
                · rename_i hbound
                  rw [if_pos hbound]
                  exact ih h pair hpair value hvalue
                · exact absurd h (by simp)

/-! ### Values against each other -/

/-- Two values stand against each other nowhere: neither where the pattern has one already, nor where
it repeats an argument. -/
def Compatible (source target : Bindings) (pairs : List (String × String)) : Prop :=
  (∀ pair ∈ pairs, ∀ value bound, source.valueOf pair.1 = some value →
    target.valueOf pair.2 = some bound → bound = value) ∧
  ∀ pair ∈ pairs, ∀ other ∈ pairs, pair.2 = other.2 → ∀ value value',
    source.valueOf pair.1 = some value → source.valueOf other.1 = some value' → value = value'

theorem Compatible.of_cons {pair : String × String} {pairs : List (String × String)}
    (h : Compatible source target (pair :: pairs)) : Compatible source target pairs := by
  refine ⟨fun other hother => h.1 other (List.mem_cons_of_mem _ hother), ?_⟩
  intro other hother another hanother
  exact h.2 other (List.mem_cons_of_mem _ hother) another (List.mem_cons_of_mem _ hanother)

/-- The value that the first argument asks for is at odds with no other. -/
theorem Compatible.bind {arg slot value : String} {pairs : List (String × String)}
    (h : Compatible source target ((arg, slot) :: pairs)) (hvalue : source.valueOf arg = some value)
    (hslot : target.valueOf slot = none) :
    Compatible source (target.bind slot value) pairs := by
  refine ⟨?_, h.of_cons.2⟩
  intro pair hpair asked bound hasked hbound
  by_cases heq : pair.2 = slot
  · have hself := target.valueOf_bind_self (Bindings.isVariable_of_valueOf_eq_none hslot)
      (Bindings.ne_empty_of_valueOf hvalue)
    rw [heq, hself] at hbound
    cases hbound
    exact h.2 (arg, slot) (by simp) pair (List.mem_cons_of_mem _ hpair) heq.symm _ _ hvalue hasked
  · rw [target.valueOf_bind_of_ne value heq] at hbound
    exact h.1 pair (List.mem_cons_of_mem _ hpair) asked bound hasked hbound

theorem agrees_unifyArgs_of_compatible (h : Compatible source target (args.zip slots)) :
    (unifyArgs source args slots target).agrees = true := by
  induction args generalizing slots target with
  | nil => rfl
  | cons arg args ih =>
      cases slots with
      | nil => rfl
      | cons slot slots =>
          rw [List.zip_cons_cons] at h
          rw [unifyArgs_cons]
          split
          · exact ih h.of_cons
          · rename_i value hvalue
            split
            · rename_i hslot
              exact ih (h.bind hvalue hslot)
            · rename_i bound hbound
              rw [if_pos (h.1 (arg, slot) (by simp) value bound hvalue hbound)]
              exact ih h.of_cons

theorem agrees_unifyArgs_iff_compatible :
    (unifyArgs source args slots target).agrees = true ↔
      Compatible source target (args.zip slots) := by
  refine ⟨fun h => ?_, agrees_unifyArgs_of_compatible⟩
  have hgiven := valueOf_of_unifyArgs h
  constructor
  · intro pair hpair value bound hvalue hbound
    have hkept := (extends_unifyArgs source args slots target).valueOf hbound
    exact Option.some.inj (hkept.symm.trans (hgiven pair hpair value hvalue))
  · intro pair hpair other hother heq value value' hvalue hvalue'
    have hfirst := hgiven pair hpair value hvalue
    rw [heq] at hfirst
    exact Option.some.inj (hfirst.symm.trans (hgiven other hother value' hvalue'))

/-- What is not repeated stands against one argument. -/
theorem eq_of_mem_zip_of_count_le_one {arg arg' slot : String} (hcount : slots.count slot ≤ 1)
    (h : (arg, slot) ∈ args.zip slots) (h' : (arg', slot) ∈ args.zip slots) : arg = arg' := by
  induction args generalizing slots with
  | nil => simp at h
  | cons first args ih =>
      cases slots with
      | nil => simp at h
      | cons other slots =>
          rw [List.zip_cons_cons, List.mem_cons] at h h'
          have hrest : ∀ {token}, (token, slot) ∈ args.zip slots → slot ≠ other := by
            rintro token hmem rfl
            have hpos := List.count_pos_iff.2 (List.of_mem_zip hmem).2
            rw [List.count_cons_self] at hcount
            omega
          rcases h with h | h <;> rcases h' with h' | h'
          · exact (Prod.mk.inj h).1.trans (Prod.mk.inj h').1.symm
          · exact absurd (Prod.mk.inj h).2 (hrest h')
          · exact absurd (Prod.mk.inj h').2 (hrest h)
          · exact ih (Nat.le_trans List.count_le_count_cons hcount) h h'

/-- Where the pattern repeats no argument without a value, only its values can be at odds. -/
theorem compatible_iff_of_count_le_one
    (hcount : ∀ slot, target.valueOf slot = none → slots.count slot ≤ 1) :
    Compatible source target (args.zip slots) ↔
      ∀ pair ∈ args.zip slots, ∀ value bound, source.valueOf pair.1 = some value →
        target.valueOf pair.2 = some bound → bound = value := by
  refine ⟨fun h => h.1, fun h => ⟨h, ?_⟩⟩
  rintro ⟨arg, slot⟩ hpair ⟨arg', slot'⟩ hother rfl value value' hvalue hvalue'
  cases hslot : target.valueOf slot with
  | none =>
      obtain rfl := eq_of_mem_zip_of_count_le_one (hcount slot hslot) hpair hother
      exact Option.some.inj (hvalue.symm.trans hvalue')
  | some bound => exact (h _ hpair _ _ hvalue hslot).symm.trans (h _ hother _ _ hvalue' hslot)

end

/-! ### Terms -/

section

variable {term pattern : Term} {source target : Bindings}

/-- What is bound stays bound. -/
theorem extends_unify (term : Term) (source : Bindings) (pattern : Term) (target : Bindings) :
    (unify term source pattern target).bindings.Extends target := by
  unfold unify
  split
  · exact extends_unifyArgs _ _ _ _
  · exact .refl target

/-- Every value afterwards was there before, or is asked for by an argument. -/
theorem get?_unify_cases {var value : String}
    (h : (unify term source pattern target).bindings.get? var = some value) :
    target.get? var = some value ∨ (target.get? var = none ∧ isVariable var = true ∧
      ∃ pair ∈ term.args.zip pattern.args, pair.2 = var ∧ source.valueOf pair.1 = some value) := by
  unfold unify at h
  split at h
  · exact get?_unifyArgs_cases h
  · exact .inl h

theorem valueOf_unify_cases {token value : String}
    (h : (unify term source pattern target).bindings.valueOf token = some value) :
    target.valueOf token = some value ∨
      ∃ pair ∈ term.args.zip pattern.args, pair.2 = token ∧ source.valueOf pair.1 = some value := by
  cases hv : isVariable token with
  | true =>
      rw [Bindings.valueOf_of_isVariable _ hv] at h ⊢
      exact (get?_unify_cases h).imp_right fun hnew => hnew.2.2
  | false =>
      rw [Bindings.valueOf_of_constant _ hv] at h ⊢
      exact .inl h

/-- What the term gives, the pattern has. -/
theorem valueOf_of_unify (h : (unify term source pattern target).agrees = true) :
    ∀ pair ∈ term.args.zip pattern.args, ∀ value, source.valueOf pair.1 = some value →
      (unify term source pattern target).bindings.valueOf pair.2 = some value := by
  unfold unify at h ⊢
  split at h
  · rename_i hkey
    rw [if_pos hkey]
    exact valueOf_of_unifyArgs h
  · exact absurd h (by simp)

/-- Matching succeeds exactly if no two values stand against each other. -/
theorem agrees_unify_iff : (unify term source pattern target).agrees = true ↔
    term.predicate = pattern.predicate ∧ term.arity = pattern.arity ∧
      Compatible source target (term.args.zip pattern.args) := by
  unfold unify
  split
  · rename_i hkey
    rw [agrees_unifyArgs_iff_compatible]
    exact ⟨fun h => ⟨hkey.1, hkey.2, h⟩, fun h => h.2.2⟩
  · rename_i hkey
    exact ⟨fun h => absurd h (by simp), fun h => absurd ⟨h.1, h.2.1⟩ hkey⟩

/-! ### Solutions -/

/-- Bindings that keep all values of the pattern, and give every argument of the pattern that stands
against a value of the term this value: a constant must be this value, and a variable be bound to it. -/
structure Bindings.Solves (b : Bindings) (term : Term) (source : Bindings) (pattern : Term)
    (target : Bindings) : Prop where
  keeps : b.Extends target
  meets : ∀ pair ∈ term.args.zip pattern.args, ∀ value, source.valueOf pair.1 = some value →
    b.valueOf pair.2 = some value

/-- Where there is a solution, no two values stand against each other. -/
theorem Bindings.Solves.compatible {b : Bindings} (h : b.Solves term source pattern target) :
    Compatible source target (term.args.zip pattern.args) := by
  constructor
  · intro pair hpair value bound hvalue hbound
    exact Option.some.inj ((h.keeps.valueOf hbound).symm.trans (h.meets pair hpair value hvalue))
  · intro pair hpair other hother heq value value' hvalue hvalue'
    have hfirst := h.meets pair hpair value hvalue
    rw [heq] at hfirst
    exact Option.some.inj (hfirst.symm.trans (h.meets other hother value' hvalue'))

/-- Successful matching is a solution. -/
theorem solves_unify (h : (unify term source pattern target).agrees = true) :
    (unify term source pattern target).bindings.Solves term source pattern target :=
  ⟨extends_unify _ _ _ _, valueOf_of_unify h⟩

/-- Matching succeeds exactly if there is a solution, and the terms have the same form. -/
theorem agrees_unify_iff_exists_solves : (unify term source pattern target).agrees = true ↔
    term.predicate = pattern.predicate ∧ term.arity = pattern.arity ∧
      ∃ b : Bindings, b.Solves term source pattern target := by
  constructor
  · intro h
    obtain ⟨hpredicate, harity, -⟩ := agrees_unify_iff.1 h
    exact ⟨hpredicate, harity, _, solves_unify h⟩
  · rintro ⟨hpredicate, harity, b, hb⟩
    exact agrees_unify_iff.2 ⟨hpredicate, harity, hb.compatible⟩

/-- Matching binds nothing but what every solution must bind. -/
theorem Bindings.Solves.extends_unify {b : Bindings} (h : b.Solves term source pattern target) :
    b.Extends (unify term source pattern target).bindings := by
  intro var value hvalue
  rcases get?_unify_cases hvalue with hold | ⟨-, hvar, pair, hpair, rfl, hasked⟩
  · exact h.keeps var value hold
  · rw [← b.valueOf_of_isVariable hvar]
    exact h.meets pair hpair value hasked

/-! ### The order of arguments -/

/-- Two terms with the same arguments against each other as two others, in another order. -/
structure Term.Rearranges (term' pattern' term pattern : Term) : Prop where
  term_predicate : term'.predicate = term.predicate
  pattern_predicate : pattern'.predicate = pattern.predicate
  term_arity : term'.arity = term.arity
  pattern_arity : pattern'.arity = pattern.arity
  pairs : (term'.args.zip pattern'.args).Perm (term.args.zip pattern.args)

theorem Compatible.congr {pairs pairs' : List (String × String)} (hperm : pairs'.Perm pairs) :
    Compatible source target pairs' ↔ Compatible source target pairs := by
  unfold Compatible
  simp only [hperm.mem_iff]

/-- The order of the arguments makes no difference to whether matching succeeds. -/
theorem agrees_unify_of_rearranges {term' pattern' : Term}
    (h : Term.Rearranges term' pattern' term pattern) :
    (unify term' source pattern' target).agrees = (unify term source pattern target).agrees := by
  rw [Bool.eq_iff_iff, agrees_unify_iff, agrees_unify_iff, h.term_predicate, h.pattern_predicate,
    h.term_arity, h.pattern_arity, Compatible.congr h.pairs]

/-- The order of the arguments makes no difference to the values after matching succeeded. -/
theorem get?_unify_of_rearranges {term' pattern' : Term}
    (h : Term.Rearranges term' pattern' term pattern)
    (hagrees : (unify term source pattern target).agrees = true) (var : String) :
    (unify term' source pattern' target).bindings.get? var =
      (unify term source pattern target).bindings.get? var := by
  have hsolves := solves_unify hagrees
  have hsolves' := solves_unify ((agrees_unify_of_rearranges h).trans hagrees)
  refine Bindings.Extends.get?_eq ?_ ?_ var
  · refine Bindings.Solves.extends_unify ⟨hsolves'.keeps, fun pair hpair => ?_⟩
    exact hsolves'.meets pair (h.pairs.mem_iff.2 hpair)
  · refine Bindings.Solves.extends_unify ⟨hsolves.keeps, fun pair hpair => ?_⟩
    exact hsolves.meets pair (h.pairs.mem_iff.1 hpair)

/-! ### Terms without variables -/

/-- Terms without variables match only if they are the same. -/
theorem agrees_unify_iff_eq (hterm : term.IsGround) (hpattern : pattern.IsGround) :
    (unify term source pattern target).agrees = true ↔ term = pattern := by
  constructor
  · intro h
    obtain ⟨hpredicate, harity, hcompatible, -⟩ := agrees_unify_iff.1 h
    have hargs : List.Forall₂ (· = ·) term.args pattern.args := by
      refine List.forall₂_iff_zip.2 ⟨harity, fun hpair => ?_⟩
      obtain ⟨harg, hslot⟩ := List.of_mem_zip hpair
      exact (hcompatible _ hpair _ _ (source.valueOf_of_constant (hterm _ harg))
        (target.valueOf_of_constant (hpattern _ hslot))).symm
    obtain ⟨predicate, args⟩ := term
    obtain ⟨predicate', slots⟩ := pattern
    rw [List.forall₂_eq_eq_eq] at hargs
    exact congrArg₂ Term.mk hpredicate hargs
  · rintro rfl
    have hsame : List.Forall₂ (· = ·) term.args term.args := by rw [List.forall₂_eq_eq_eq]
    refine agrees_unify_iff_exists_solves.2 ⟨rfl, rfl, target, .refl target, ?_⟩
    intro pair hpair value hvalue
    have hconstant := hterm pair.1 (List.of_mem_zip hpair).1
    rw [source.valueOf_of_constant hconstant] at hvalue
    rw [← List.forall₂_zip hsame hpair, target.valueOf_of_constant hconstant, hvalue]

/-! ### The least solution -/

/-- Matching finds the least solution, if the predicates and the numbers of arguments are the same
and there is one.  In any case it keeps what is bound, and binds variables without a value only, to
values that stand against them.  The order of the arguments makes no difference, and terms without
variables match only if they are the same. -/
theorem unify_isLeast (term pattern : Term) (source target : Bindings) :
    ((unify term source pattern target).agrees = true ↔
      term.predicate = pattern.predicate ∧ term.arity = pattern.arity ∧
        ∃ b : Bindings, b.Solves term source pattern target) ∧
    ((unify term source pattern target).agrees = true →
      (unify term source pattern target).bindings.Solves term source pattern target ∧
        ∀ b : Bindings, b.Solves term source pattern target →
          b.Extends (unify term source pattern target).bindings) ∧
    (unify term source pattern target).bindings.Extends target ∧
    (∀ var value, (unify term source pattern target).bindings.get? var = some value →
      target.get? var = some value ∨ (target.get? var = none ∧ isVariable var = true ∧
        ∃ pair ∈ term.args.zip pattern.args,
          pair.2 = var ∧ source.valueOf pair.1 = some value)) ∧
    (∀ term' pattern', Term.Rearranges term' pattern' term pattern →
      (unify term' source pattern' target).agrees = (unify term source pattern target).agrees ∧
        ((unify term source pattern target).agrees = true →
          ∀ var, (unify term' source pattern' target).bindings.get? var =
            (unify term source pattern target).bindings.get? var)) ∧
    (term.IsGround → pattern.IsGround →
      ((unify term source pattern target).agrees = true ↔ term = pattern)) := by
  refine ⟨agrees_unify_iff_exists_solves, fun hagrees => ⟨solves_unify hagrees, ?_⟩,
    extends_unify _ _ _ _, fun _ _ => get?_unify_cases, ?_, agrees_unify_iff_eq⟩
  · exact fun b hb => hb.extends_unify
  · exact fun term' pattern' h =>
      ⟨agrees_unify_of_rearranges h, fun hagrees => get?_unify_of_rearranges h hagrees⟩

/-- A repeated variable gets one value, here from a constant and from a variable that has it. -/
theorem unify_isLeast_likes :
    (unify ⟨"likes", ["kim", "X"]⟩ (Bindings.empty.bind "X" "kim") ⟨"likes", ["B", "B"]⟩
      .empty).agrees = true ∧
    ∀ b : Bindings, b.Solves ⟨"likes", ["kim", "X"]⟩ (Bindings.empty.bind "X" "kim")
        ⟨"likes", ["B", "B"]⟩ .empty →
      b.Extends (Bindings.empty.bind "B" "kim") := by
  have hagrees : (unify ⟨"likes", ["kim", "X"]⟩ (Bindings.empty.bind "X" "kim")
      ⟨"likes", ["B", "B"]⟩ .empty).agrees = true := by decide
  have hbindings : (unify ⟨"likes", ["kim", "X"]⟩ (Bindings.empty.bind "X" "kim")
      ⟨"likes", ["B", "B"]⟩ .empty).bindings = Bindings.empty.bind "B" "kim" := by decide
  have hleast := ((unify_isLeast ⟨"likes", ["kim", "X"]⟩ ⟨"likes", ["B", "B"]⟩
    (Bindings.empty.bind "X" "kim") .empty).2.1 hagrees).2
  rw [hbindings] at hleast
  exact ⟨hagrees, hleast⟩

end

end ClauseForest
