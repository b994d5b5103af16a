/-
**Groundings**

Variables stand for constants.  A *grounding* chooses a constant for every variable, and so turns
every term into a term without variables; a term that has none is left as it is.

Bindings that hold constants only are part of a grounding, which any constant at all completes for
the variables without a value.  Every such grounding gives a term whose arguments all have values
just these values.

Main definitions:

* `Term.IsGround` — a term without variables;
* `Grounding`, `Grounding.term` — a choice of constants, and what it makes of a term;
* `Bindings.IsGround`, `Bindings.grounding` — bindings to constants, and their completion;
* `Grounding.Respects` — a grounding that has all values of bindings;
* `Term.ValuesIn` — the values of the arguments of a term.

Main results:

* `Grounding.term_of_isGround` — a term without variables is its own instance;
* `Bindings.respects_grounding` — the completion of bindings has all their values;
* `Grounding.Respects.term_eq` — a grounding that has all values of bindings gives a term its
  values.
-/

import ClauseForest.Logic.Bindings

set_option relaxedAutoImplicit false
set_option autoImplicit false

namespace ClauseForest

/-! ### Constants -/

/-- The empty token is a variable. -/
theorem ne_empty_of_constant {token : String} (h : isVariable token = false) : token ≠ "" := by
  rintro rfl
  exact absurd h (by decide)

/-- A term without variables. -/
def Term.IsGround (t : Term) : Prop := ∀ arg ∈ t.args, isVariable arg = false

instance (t : Term) : Decidable t.IsGround := by
  unfold Term.IsGround
  infer_instance

/-- A choice of a constant for every variable. -/
structure Grounding where
  /-- The constant for a variable. -/
  value : String → String
  constant : ∀ var, isVariable (value var) = false

namespace Grounding

/-- What a grounding makes of a token. -/
def token (θ : Grounding) (token : String) : String :=
  if isVariable token then θ.value token else token

/-- What a grounding makes of a term. -/
def term (θ : Grounding) (t : Term) : Term := ⟨t.predicate, t.args.map θ.token⟩

@[simp] theorem term_predicate (θ : Grounding) (t : Term) :
    (θ.term t).predicate = t.predicate := rfl

@[simp] theorem term_args (θ : Grounding) (t : Term) :
    (θ.term t).args = t.args.map θ.token := rfl

@[simp] theorem term_arity (θ : Grounding) (t : Term) : (θ.term t).arity = t.arity := by
  simp [Term.arity]

theorem token_of_constant (θ : Grounding) {token : String} (h : isVariable token = false) :
    θ.token token = token := by
  simp [Grounding.token, h]

theorem isVariable_token (θ : Grounding) (token : String) :
    isVariable (θ.token token) = false := by
  unfold Grounding.token
  split
  · exact θ.constant token
  · simpa using ‹¬ isVariable token = true›

/-- Every instance is free of variables. -/
theorem isGround_term (θ : Grounding) (t : Term) : (θ.term t).IsGround := by
  intro arg harg
  obtain ⟨token, -, rfl⟩ := List.mem_map.1 harg
  exact θ.isVariable_token token

/-- A term without variables is its own instance. -/
theorem term_of_isGround (θ : Grounding) {t : Term} (h : t.IsGround) : θ.term t = t := by
  have hargs : t.args.map θ.token = t.args := by
    rw [List.map_congr_left fun arg harg => θ.token_of_constant (h arg harg), List.map_id']
  unfold Grounding.term
  rw [hargs]

end Grounding

/-! ### Bindings to constants -/

namespace Bindings

theorem valueOf_of_constant (b : Bindings) {token : String} (h : isVariable token = false) :
    b.valueOf token = some token := by
  simp [valueOf, h]

theorem valueOf_of_isVariable (b : Bindings) {token : String} (h : isVariable token = true) :
    b.valueOf token = b.get? token := by
  simp [valueOf, h]

/-- Only a variable has no value. -/
theorem isVariable_of_valueOf_eq_none {b : Bindings} {token : String}
    (h : b.valueOf token = none) : isVariable token = true := by
  cases hv : isVariable token with
  | true => rfl
  | false => exact absurd h (by simp [b.valueOf_of_constant hv])

/-- Without bindings only the constants have values. -/
theorem valueOf_empty {token value : String} (h : empty.valueOf token = some value) :
    isVariable token = false ∧ value = token := by
  cases hv : isVariable token with
  | true => exact absurd h (by simp [valueOf_of_isVariable _ hv])
  | false =>
      rw [valueOf_of_constant _ hv] at h
      exact ⟨rfl, (Option.some.inj h).symm⟩

theorem valueOf_bind_self (b : Bindings) {var value : String} (hvar : isVariable var = true)
    (hvalue : value ≠ "") : (b.bind var value).valueOf var = some value := by
  rw [valueOf_of_isVariable _ hvar, get?_bind_self _ _ hvalue]

theorem valueOf_bind_of_ne (b : Bindings) {var other : String} (value : String)
    (h : other ≠ var) : (b.bind var value).valueOf other = b.valueOf other := by
  unfold valueOf
  rw [get?_bind_of_ne _ _ h]

/-- Bindings to constants. -/
def IsGround (b : Bindings) : Prop :=
  ∀ token value, b.valueOf token = some value → isVariable value = false

theorem isGround_empty : empty.IsGround := by
  intro token value h
  obtain ⟨hc, rfl⟩ := valueOf_empty h
  exact hc

theorem IsGround.bind {b : Bindings} (hb : b.IsGround) {var value : String}
    (hvar : isVariable var = true) (hvalue : isVariable value = false) :
    (b.bind var value).IsGround := by
  intro token found h
  by_cases ht : token = var
  · subst ht
    rw [b.valueOf_bind_self hvar (ne_empty_of_constant hvalue)] at h
    exact Option.some.inj h ▸ hvalue
  · rw [b.valueOf_bind_of_ne value ht] at h
    exact hb token found h

/-- The completion of bindings to constants. -/
def grounding (b : Bindings) (hb : b.IsGround) : Grounding where
  value var := (b.valueOf var).getD "a"
  constant var := by
    cases h : b.valueOf var with
    | none => decide
    | some value => exact hb var value h

end Bindings

/-- The grounding has all values of the bindings. -/
def Grounding.Respects (θ : Grounding) (b : Bindings) : Prop :=
  ∀ token value, b.valueOf token = some value → θ.token token = value

/-- The completion of bindings has all their values. -/
theorem Bindings.respects_grounding {b : Bindings} (hb : b.IsGround) :
    (b.grounding hb).Respects b := by
  intro token value h
  unfold Grounding.token
  cases hv : isVariable token with
  | true => simp [grounding, h]
  | false =>
      rw [b.valueOf_of_constant hv] at h
      simpa using h

/-! ### The values of a term -/

/-- The values of the arguments of a term, all of which have one. -/
def Term.ValuesIn (t : Term) (b : Bindings) (values : List String) : Prop :=
  t.args.map b.valueOf = values.map some

/-- Every argument of a term with values has one. -/
theorem Term.ValuesIn.isSome {t : Term} {b : Bindings} {values : List String}
    (h : t.ValuesIn b values) : ∀ arg ∈ t.args, (b.valueOf arg).isSome := by
  intro arg harg
  have hmem : b.valueOf arg ∈ values.map some := h ▸ List.mem_map_of_mem harg
  obtain ⟨value, -, hvalue⟩ := List.mem_map.1 hmem
  simp [← hvalue]

/-- A term all of whose arguments have values has a list of them. -/
theorem Term.exists_valuesIn {t : Term} {b : Bindings}
    (h : ∀ arg ∈ t.args, (b.valueOf arg).isSome) : ∃ values, t.ValuesIn b values := by
  refine ⟨t.args.map fun arg => (b.valueOf arg).getD "", ?_⟩
  unfold ValuesIn
  rw [List.map_map]
  refine List.map_congr_left fun arg harg => ?_
  obtain ⟨value, hvalue⟩ := Option.isSome_iff_exists.1 (h arg harg)
  simp [hvalue]

/-- A grounding that has all values of bindings gives a term its values. -/
theorem Grounding.Respects.term_eq {θ : Grounding} {b : Bindings} (hθ : θ.Respects b) {t : Term}
    {values : List String} (h : t.ValuesIn b values) : θ.term t = ⟨t.predicate, values⟩ := by
  have hargs : t.args.map b.valueOf = (t.args.map θ.token).map some := by
    rw [List.map_map]
    refine List.map_congr_left fun arg harg => ?_
    obtain ⟨value, hvalue⟩ := Option.isSome_iff_exists.1 (h.isSome arg harg)
    simp [hvalue, hθ arg value hvalue]
  have hvalues : t.args.map θ.token = values :=
    (List.map_inj_right fun _ _ => Option.some.inj).1 (hargs.symm.trans h)
  unfold Grounding.term
  rw [hvalues]

end ClauseForest
