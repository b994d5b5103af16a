/-
**Renaming**

A rule means the same under other names for its variables, and a program means the same under other
names for its constants.  The search never gives a rule fresh names when it is entered: the caller and
the callee may use the same names, and only the bindings that stand on each side of a matching keep
them apart.  So it has to be shown that names do not leak from one rule into another.

Two searches run side by side, one on each program.  Every frame of the second works on the rule of a
frame of the first under the new names of that rule, and its bindings hold the same values, under the
new names of the constants.  Both searches then take the same step, and so the whole runs agree, down
to the number of their steps.

Main definitions:

* `ConstantNames`, `VariableNames` — other names for the constants of a program and for the variables
  of one rule;
* `Variant` — a rule with other names for its variables, and `Variant.renamed`, the rule under them;
* `ConstantNames.ofPerm`, `VariableNames.ofPerm`, `Variant.ofPerm` — names exchanged among each other;
* `Bindings.Renames`, `Frame.Renames`, `Branch.Renames` — the same values, frame and branch under
  other names.

Main results:

* `unify_renames` — matching does not depend on names;
* `Session.advance_renames` — **one step does not depend on names**;
* `Session.searchFor_renames` — neither does a run of any length;
* `Session.prove_renamed` — **the result of a proof is the same under other names**.
-/

import ClauseForest.Proofs.Logic.Matching
import ClauseForest.Proofs.Prover.LeastModel
import ClauseForest.Proofs.Prover.Success
import Mathlib.Data.List.Forall2
import Mathlib.Logic.Equiv.Basic

set_option relaxedAutoImplicit false
set_option autoImplicit false

namespace ClauseForest

/-! ### New names -/

/-- New names for the constants, different ones for different constants. -/
structure ConstantNames where
  name : String → String
  isVariable_name : ∀ token, isVariable token = false → isVariable (name token) = false
  injective : ∀ token other, isVariable token = false → isVariable other = false →
    name token = name other → token = other

/-- New names for the variables among some tokens, different ones for different variables. -/
structure VariableNames (tokens : List String) where
  name : String → String
  isVariable_name : ∀ token ∈ tokens, isVariable token = true → isVariable (name token) = true
  injective : ∀ token ∈ tokens, ∀ other ∈ tokens, isVariable token = true →
    isVariable other = true → name token = name other → token = other

namespace VariableNames

variable {tokens : List String}

/-- The new name of a token. -/
def token (ν : VariableNames tokens) (γ : ConstantNames) (token : String) : String :=
  if isVariable token then ν.name token else γ.name token

/-- A term under new names. -/
def term (ν : VariableNames tokens) (γ : ConstantNames) (t : Term) : Term :=
  ⟨t.predicate, t.args.map (ν.token γ)⟩

variable (ν : VariableNames tokens) (γ : ConstantNames)

@[simp] theorem term_predicate (t : Term) : (ν.term γ t).predicate = t.predicate := rfl

@[simp] theorem term_args (t : Term) : (ν.term γ t).args = t.args.map (ν.token γ) := rfl

@[simp] theorem term_arity (t : Term) : (ν.term γ t).arity = t.arity := by simp [Term.arity]

@[simp] theorem term_key (t : Term) : (ν.term γ t).key = t.key := by simp [Term.key]

theorem token_of_constant {token : String} (h : isVariable token = false) :
    ν.token γ token = γ.name token := by
  simp [VariableNames.token, h]

theorem token_of_isVariable {token : String} (h : isVariable token = true) :
    ν.token γ token = ν.name token := by
  simp [VariableNames.token, h]

/-- Variables stay variables, and constants stay constants. -/
theorem isVariable_token {token : String} (h : token ∈ tokens) :
    isVariable (ν.token γ token) = isVariable token := by
  cases hv : isVariable token with
  | true => rw [token_of_isVariable ν γ hv, ν.isVariable_name token h hv]
  | false => rw [token_of_constant ν γ hv, γ.isVariable_name token hv]

variable {ν γ}

/-- Different tokens get different names. -/
theorem token_injective {token other : String} (h : token ∈ tokens) (hother : other ∈ tokens)
    (heq : ν.token γ token = ν.token γ other) : token = other := by
  have hkind : isVariable token = isVariable other := by
    rw [← isVariable_token ν γ h, heq, isVariable_token ν γ hother]
  cases hv : isVariable token with
  | true =>
      have hv' := hkind.symm.trans hv
      rw [token_of_isVariable ν γ hv, token_of_isVariable ν γ hv'] at heq
      exact ν.injective token h other hother hv hv' heq
  | false =>
      have hv' := hkind.symm.trans hv
      rw [token_of_constant ν γ hv, token_of_constant ν γ hv'] at heq
      exact γ.injective token other hv hv' heq

end VariableNames

/-- The argument tokens of a rule. -/
def Rule.tokens (r : Rule) : List String := r.head.args ++ r.body.flatMap Term.args

/-- A rule with new names for its variables. -/
structure Variant where
  rule : Rule
  names : VariableNames rule.tokens

/-- The rule under the new names of its variables and of the constants. -/
def Variant.renamed (γ : ConstantNames) (v : Variant) : Rule :=
  ⟨v.names.term γ v.rule.head, v.rule.body.map (v.names.term γ)⟩

/-- The second rule is the first under new names. -/
def Rule.Renames (γ : ConstantNames) (r r' : Rule) : Prop :=
  ∃ v : Variant, v.rule = r ∧ v.renamed γ = r'

/-! ### Exchanged names -/

/-- Two tokens of one kind that are exchanged keep every token of its kind. -/
theorem isVariable_swap {a b : String} (hab : isVariable a = isVariable b) (token : String) :
    isVariable (Equiv.swap a b token) = isVariable token := by
  rw [Equiv.swap_apply_def]
  split
  · next heq => rw [heq, hab]
  · split
    · next heq => rw [heq, hab]
    · rfl

/-- Three names in a circle. -/
def circle (a b c : String) : Equiv.Perm String := (Equiv.swap b c).trans (Equiv.swap a b)

theorem isVariable_circle {a b c : String} (hab : isVariable a = isVariable b)
    (hbc : isVariable b = isVariable c) (token : String) :
    isVariable (circle a b c token) = isVariable token := by
  rw [circle, Equiv.trans_apply, isVariable_swap hab, isVariable_swap hbc]

/-- Constants that are exchanged among each other. -/
def ConstantNames.ofPerm (σ : Equiv.Perm String)
    (hσ : ∀ token, isVariable (σ token) = isVariable token) : ConstantNames where
  name := σ
  isVariable_name := fun token hconstant => (hσ token).trans hconstant
  injective := fun _ _ _ _ heq => σ.injective heq

/-- Variables that are exchanged among each other. -/
def VariableNames.ofPerm (tokens : List String) (σ : Equiv.Perm String)
    (hσ : ∀ token, isVariable (σ token) = isVariable token) : VariableNames tokens where
  name := σ
  isVariable_name := fun token _ hvar => (hσ token).trans hvar
  injective := fun _ _ _ _ _ _ heq => σ.injective heq

/-- A rule whose variables are exchanged among each other. -/
def Variant.ofPerm (rule : Rule) (σ : Equiv.Perm String)
    (hσ : ∀ token, isVariable (σ token) = isVariable token) : Variant :=
  ⟨rule, .ofPerm rule.tokens σ hσ⟩

/-! ### Bindings -/

section

variable {γ : ConstantNames} {tokens tokens' : List String} {ν : VariableNames tokens}
  {ν' : VariableNames tokens'}

/-- The second bindings give every token under its new name the value that the first give the token,
under the new name of the value. -/
structure Bindings.Renames (γ : ConstantNames) (ν : VariableNames tokens) (b b' : Bindings) :
    Prop where
  isGround : b.IsGround
  valueOf_token : ∀ token ∈ tokens, b'.valueOf (ν.token γ token) = (b.valueOf token).map γ.name

theorem Bindings.renames_empty : Bindings.empty.Renames γ ν .empty where
  isGround := isGround_empty
  valueOf_token := by
    intro token htoken
    have hkind := ν.isVariable_token γ htoken
    cases hv : isVariable token with
    | true =>
        rw [hv] at hkind
        simp [valueOf_of_isVariable, hv, hkind]
    | false =>
        rw [hv] at hkind
        rw [Bindings.empty.valueOf_of_constant hkind, Bindings.empty.valueOf_of_constant hv,
          Option.map_some, VariableNames.token_of_constant ν γ hv]

/-- A new value for a variable without one is a new value for its new name. -/
theorem Bindings.Renames.bind {b b' : Bindings} (hb : b.Renames γ ν b') {slot value : String}
    (hslot : slot ∈ tokens) (hnone : b.valueOf slot = none) (hvalue : isVariable value = false) :
    (b.bind slot value).Renames γ ν (b'.bind (ν.token γ slot) (γ.name value)) := by
  have hvar := isVariable_of_valueOf_eq_none hnone
  have hvar' : isVariable (ν.token γ slot) = true := by
    rw [ν.isVariable_token γ hslot, hvar]
  refine ⟨hb.isGround.bind hvar hvalue, ?_⟩
  intro token htoken
  by_cases heq : token = slot
  · subst heq
    rw [b'.valueOf_bind_self hvar' (ne_empty_of_constant (γ.isVariable_name value hvalue)),
      b.valueOf_bind_self hvar (ne_empty_of_constant hvalue), Option.map_some]
  · -- another token has another new name, so its value is not touched on either side
    have hne : ν.token γ token ≠ ν.token γ slot := by
      intro h
      exact heq (VariableNames.token_injective htoken hslot h)
    rw [b'.valueOf_bind_of_ne _ hne, b.valueOf_bind_of_ne _ heq]
    exact hb.valueOf_token token htoken

/-! ### Matching -/

theorem unifyArgs_renames {source source' : Bindings} (hs : source.Renames γ ν source')
    {args slots : List String} (hargs : args ⊆ tokens) (hslots : slots ⊆ tokens')
    {target target' : Bindings} (ht : target.Renames γ ν' target') :
    (unifyArgs source' (args.map (ν.token γ)) (slots.map (ν'.token γ)) target').agrees =
        (unifyArgs source args slots target).agrees ∧
      (unifyArgs source args slots target).bindings.Renames γ ν'
        (unifyArgs source' (args.map (ν.token γ)) (slots.map (ν'.token γ)) target').bindings := by
  induction args generalizing slots target target' with
  | nil => exact ⟨rfl, ht⟩
  | cons arg args ih =>
      cases slots with
      | nil => exact ⟨rfl, ht⟩
      | cons slot slots =>
          have harg : arg ∈ tokens := hargs (by simp)
          have hslot : slot ∈ tokens' := hslots (by simp)
          have hargs' : args ⊆ tokens := fun other hother => hargs (by simp [hother])
          have hslots' : slots ⊆ tokens' := fun other hother => hslots (by simp [hother])
          simp only [List.map_cons]
          rw [unifyArgs_cons, unifyArgs_cons, hs.valueOf_token arg harg]
          cases hvalue : source.valueOf arg with
          | none => exact ih hargs' hslots' ht
          | some value =>
              have hconstant := hs.isGround arg value hvalue
              simp only [Option.map_some]
              rw [ht.valueOf_token slot hslot]
              cases hbound : target.valueOf slot with
              | none => exact ih hargs' hslots' (ht.bind hslot hbound hconstant)
              | some bound =>
                  have hiff : γ.name bound = γ.name value ↔ bound = value := by
                    constructor
                    · exact γ.injective bound value (ht.isGround slot bound hbound) hconstant
                    · exact congrArg γ.name
                  simp only [Option.map_some, hiff]
                  split
                  · exact ih hargs' hslots' ht
                  · exact ⟨rfl, ht⟩

/-- Matching does not depend on names. -/
theorem unify_renames {source source' : Bindings} (hs : source.Renames γ ν source')
    {term pattern : Term} (hterm : term.args ⊆ tokens) (hpattern : pattern.args ⊆ tokens')
    {target target' : Bindings} (ht : target.Renames γ ν' target') :
    (unify (ν.term γ term) source' (ν'.term γ pattern) target').agrees =
        (unify term source pattern target).agrees ∧
      (unify term source pattern target).bindings.Renames γ ν'
        (unify (ν.term γ term) source' (ν'.term γ pattern) target').bindings := by
  unfold unify
  simp only [VariableNames.term_predicate, VariableNames.term_arity, VariableNames.term_args]
  split
  · exact unifyArgs_renames hs hterm hpattern ht
  · exact ⟨rfl, ht⟩

end

/-! ### Frames and branches -/

/-- The second frame works on the rule of the first under new names, with the same values. -/
inductive Frame.Renames (γ : ConstantNames) : Frame → Frame → Prop
  | of_names {tokens : List String} (ν : VariableNames tokens) {head : Term} {todo : List Term}
      {b b' : Bindings} (hhead : head.args ⊆ tokens)
      (htodo : ∀ literal ∈ todo, literal.args ⊆ tokens) (hb : b.Renames γ ν b') :
      Frame.Renames γ ⟨head, todo, b⟩ ⟨ν.term γ head, todo.map (ν.term γ), b'⟩

/-- The second branch is the first under new names, which every frame chooses for itself. -/
structure Branch.Renames (γ : ConstantNames) (b b' : Branch) : Prop where
  top : Frame.Renames γ b.top b'.top
  callers : List.Forall₂ (Frame.Renames γ) b.callers b'.callers

/-- What becomes of a branch, and of the branch under new names. -/
inductive Progress.Renames (γ : ConstantNames) : Progress → Progress → Prop
  | proved : Progress.Renames γ .proved .proved
  | branches {nexts nexts' : List Branch} (h : List.Forall₂ (Branch.Renames γ) nexts nexts') :
      Progress.Renames γ (.branches nexts) (.branches nexts')

section

variable {γ : ConstantNames}

/-- A waiting rule takes the values of a finished rule, whatever names the two use. -/
theorem Frame.Renames.resume {caller caller' finished finished' : Frame}
    (hcaller : Frame.Renames γ caller caller') (hfinished : Frame.Renames γ finished finished') :
    Frame.Renames γ (caller.resume finished) (caller'.resume finished') := by
  cases hcaller with
  | @of_names tokens ν head todo b b' hhead htodo hb =>
      cases hfinished with
      | of_names ν' hhead' _ hb' =>
          cases todo with
          | nil => exact .of_names ν hhead htodo hb
          | cons slot rest =>
              have hslot : slot.args ⊆ tokens := htodo slot (by simp)
              have hrest : ∀ literal ∈ rest, literal.args ⊆ tokens := by
                intro literal hliteral
                exact htodo literal (by simp [hliteral])
              exact .of_names ν hhead hrest (unify_renames hb' hhead' hslot hb).2

/-- A rule is entered for a literal under any names, or under none. -/
theorem Frame.enter?_renames {tokens : List String} {ν : VariableNames tokens} {b b' : Bindings}
    (hb : b.Renames γ ν b') {literal : Term} (hliteral : literal.args ⊆ tokens) (v : Variant) :
    Option.Rel (Frame.Renames γ) (Frame.enter? literal b v.rule)
      (Frame.enter? (ν.term γ literal) b' (v.renamed γ)) := by
  have hhead : v.rule.head.args ⊆ v.rule.tokens := List.subset_append_left _ _
  have hbody : ∀ other ∈ v.rule.body, other.args ⊆ v.rule.tokens := by
    intro other hother arg harg
    exact List.mem_append_right _ (List.mem_flatMap.2 ⟨other, hother, harg⟩)
  have hempty : Bindings.empty.Renames γ v.names .empty := Bindings.renames_empty
  obtain ⟨hagrees, hentered⟩ := unify_renames hb hliteral hhead hempty
  unfold Frame.enter?
  simp only [Variant.renamed, hagrees]
  split
  · exact .some (.of_names v.names hhead hbody hentered)
  · exact .none

/-- Frames under new names open branches under new names. -/
theorem Frame.Renames.branches {entered entered' : Option Frame}
    (h : Option.Rel (Frame.Renames γ) entered entered') {callers callers' : List Frame}
    (hcallers : List.Forall₂ (Frame.Renames γ) callers callers') :
    Option.Rel (Branch.Renames γ) (entered.map fun frame => ⟨frame, callers⟩)
      (entered'.map fun frame => ⟨frame, callers'⟩) := by
  cases h with
  | none => exact .none
  | some hframe => exact .some ⟨hframe, hcallers⟩

end

/-! ### Steps and runs -/

namespace Session

variable {γ : ConstantNames} {s s' : Session}

/-- The second session proves from the rules of the first under new names. -/
def Renames (γ : ConstantNames) (s s' : Session) : Prop :=
  ∀ literal literal' : Term, literal.key = literal'.key →
    List.Forall₂ (Rule.Renames γ) (s.candidates literal) (s'.candidates literal')

theorem renames_ofList (γ : ConstantNames) (variants : List Variant) (clause : Option Variant)
    (limit limit' : Option Nat) :
    Renames γ ⟨.ofList (variants.map Variant.rule), clause.map Variant.rule, limit⟩
      ⟨.ofList (variants.map (Variant.renamed γ)), clause.map (Variant.renamed γ), limit'⟩ := by
  intro literal literal' hkey
  have hlist (f : Variant → Rule) : variants.map f ++ (clause.map f).toList =
      (variants ++ clause.toList).map f := by
    cases clause <;> simp
  rw [candidates_ofList, candidates_ofList, hlist, hlist, ← hkey]
  -- new names change no key, so the same variants are chosen on both sides
  induction variants ++ clause.toList with
  | nil => exact .nil
  | cons v variants ih =>
      have hv : (v.renamed γ).head.key = v.rule.head.key := by simp [Variant.renamed]
      simp only [List.map_cons, List.filter_cons, hv]
      split
      · exact .cons ⟨v, rfl, rfl⟩ ih
      · exact ih

/-- One step does not depend on names. -/
theorem advance_renames (hs : Renames γ s s') {b b' : Branch} (hb : b.Renames γ b') :
    Progress.Renames γ (s.advance b) (s'.advance b') := by
  obtain ⟨top, callers⟩ := b
  obtain ⟨top', callers'⟩ := b'
  obtain ⟨htop, hcallers⟩ := hb
  have hframe := htop
  cases hframe with
  | @of_names tokens ν head todo values values' hhead htodo hvalues =>
      cases todo with
      | nil =>
          cases hcallers with
          | nil => exact .proved
          | cons hcaller hcallers =>
              -- the finished rule hands its values to the rule that waits for it
              exact .branches (.cons ⟨hcaller.resume htop, hcallers⟩ .nil)
      | cons literal rest =>
          have hliteral : literal.args ⊆ tokens := htodo literal (by simp)
          have hrules := hs literal (ν.term γ literal) (by simp)
          refine .branches (List.rel_filterMap ?_ (List.rel_reverse hrules))
          rintro _ _ ⟨v, rfl, rfl⟩
          exact Frame.Renames.branches (Frame.enter?_renames hvalues hliteral v) (.cons htop hcallers)

/-- A run does not depend on names. -/
theorem searchFor_renames (hs : Renames γ s s') {n : Nat} {stack stack' : List Branch}
    (h : List.Forall₂ (Branch.Renames γ) stack stack') :
    s'.searchFor n stack' = s.searchFor n stack := by
  induction n generalizing stack stack' with
  | zero => cases h <;> rfl
  | succ n ih =>
      cases h with
      | nil => rfl
      | cons hb hrest =>
          have hstep := advance_renames hs hb
          rw [searchFor, searchFor]
          revert hstep
          generalize s.advance _ = progress
          generalize s'.advance _ = progress'
          intro hstep
          cases hstep with
          | proved => rfl
          | branches hnexts => exact ih (List.rel_append hnexts hrest)

theorem search_renames (hs : Renames γ s s') {stack stack' : List Branch}
    (h : List.Forall₂ (Branch.Renames γ) stack stack') : s'.search stack' = s.search stack := by
  refine Option.ext fun answer => ?_
  simp only [search_eq_some_iff, searchFor_renames hs h]

/-- The query under new names is the query of a renamed branch. -/
theorem renames_ofQuery (γ : ConstantNames) (query : Term) (names : VariableNames query.args) :
    Branch.Renames γ (.ofQuery query) (.ofQuery (names.term γ query)) where
  top := by
    have hhead : (⟨"query", []⟩ : Term).args ⊆ query.args := by simp
    have hquery : ∀ literal ∈ [query], literal.args ⊆ query.args := by simp
    exact .of_names names hhead hquery Bindings.renames_empty
  callers := .nil

/-- **Names do not matter.**  Every rule, the clause and the query may give their variables other names,
each as it likes and whatever names the others use, and the constants of the whole program may get
other names: a proof has the same result, down to the number of steps after which it gives up. -/
theorem prove_renamed (γ : ConstantNames) (variants : List Variant) (clause : Option Variant)
    (query : Term) (names : VariableNames query.args) (limit : Option Nat) :
    prove ⟨.ofList (variants.map (Variant.renamed γ)), clause.map (Variant.renamed γ), limit⟩
        (names.term γ query) =
      prove ⟨.ofList (variants.map Variant.rule), clause.map Variant.rule, limit⟩ query := by
  have hs := renames_ofList γ variants clause limit limit
  have hstack : List.Forall₂ (Branch.Renames γ) [.ofQuery query] [.ofQuery (names.term γ query)] :=
    .cons (renames_ofQuery γ query names) .nil
  unfold prove
  simp only [searchFor_renames hs hstack, search_renames hs hstack]

/-- The constants of a chain trade their names in a circle. -/
def chainNames : ConstantNames :=
  .ofPerm (circle "a" "b" "c") (isVariable_circle (by decide) (by decide))

/-- The rules of a chain with their two variables exchanged. -/
def chainVariants : List Variant :=
  chainRules.map fun rule => .ofPerm rule (Equiv.swap "X" "Y") (isVariable_swap (by decide))

/-- The clause that prolongs a way, with its three variables in a circle. -/
def chainVariant : Variant :=
  .ofPerm chainClause (circle "X" "Y" "Z") (isVariable_circle (by decide) (by decide))

/-- A query from the start of a chain, with a variable that both rules use. -/
def chainQueryNames : VariableNames (⟨"reach", ["a", "Z"]⟩ : Term).args :=
  .ofPerm _ (circle "X" "Y" "Z") (isVariable_circle (by decide) (by decide))

/-- The theorem at a chain of edges, with other names for the constants and, differently in the rule, in
the clause and in the query, for the variables that these share: the query is proved in both programs,
and both give up after the same number of steps. -/
theorem prove_renamed_chain :
    chainVariants.map (Variant.renamed chainNames) =
        [⟨⟨"edge", ["b", "c"]⟩, []⟩, ⟨⟨"edge", ["c", "a"]⟩, []⟩,
          ⟨⟨"reach", ["Y", "X"]⟩, [⟨"edge", ["Y", "X"]⟩]⟩] ∧
      chainVariant.renamed chainNames =
        ⟨⟨"reach", ["Y", "X"]⟩, [⟨"edge", ["Y", "Z"]⟩, ⟨"reach", ["Z", "X"]⟩]⟩ ∧
      chainQueryNames.term chainNames ⟨"reach", ["a", "Z"]⟩ = ⟨"reach", ["b", "X"]⟩ ∧
      (∀ limit, prove ⟨.ofList (chainVariants.map (Variant.renamed chainNames)),
          some (chainVariant.renamed chainNames), limit⟩ ⟨"reach", ["b", "X"]⟩ =
        prove ⟨.ofList chainRules, some chainClause, limit⟩ ⟨"reach", ["a", "Z"]⟩) ∧
      prove ⟨.ofList chainRules, some chainClause, some 50⟩ ⟨"reach", ["a", "Z"]⟩ = .ok true ∧
      prove ⟨.ofList chainRules, some chainClause, some 5⟩ ⟨"reach", ["a", "Z"]⟩ =
        .error (.exhausted 5) := by
  have hrules : chainVariants.map Variant.rule = chainRules := by
    rw [chainVariants, List.map_map]
    exact List.map_id _
  have hquery : chainQueryNames.term chainNames ⟨"reach", ["a", "Z"]⟩ = ⟨"reach", ["b", "X"]⟩ := by
    decide
  have hprove (limit : Option Nat) := prove_renamed chainNames chainVariants (some chainVariant)
    ⟨"reach", ["a", "Z"]⟩ chainQueryNames limit
  rw [hrules, hquery] at hprove
  exact ⟨by decide, by decide, hquery, hprove, by decide +kernel, by decide +kernel⟩

end Session

end ClauseForest
