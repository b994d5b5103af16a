/-
**Soundness of the prover**

What the prover proves, follows from the rules.  This is not so for every program, since matching
accepts an argument without a value whatever stands against it.  Two conditions on the rules make up
for it: every variable of a head occurs in the body, so that a finished rule has a value for each
argument of its head; and a variable that a literal repeats occurs in an earlier literal already, so
that it has a value when the literal is reached, and no answer can be at odds with itself.

What carries the proof is an invariant of branches.  In every rule on a branch, the literals that
are not open any more have values for all their arguments, and with these values they are derivable;
and whatever the literal that waits for a rule has given to its head, the rule still has.

Main definitions:

* `Rule.IsRangeRestricted`, `Rule.BindsRepeats` — the conditions on rules;
* `Term.IsLinear` — a query without repeated variables;
* `Settled` — a literal that was proved;
* `Frame.WorksOn`, `Frame.Awaits`, `Branch.Sound` — the invariant.

Main results:

* `Branch.Sound.resume`, `Branch.Sound.enter` — every step keeps the invariant;
* `Session.derivable_of_prove` — **some instance of a proved query is derivable**.
-/

import ClauseForest.Proofs.Logic.Matching
import ClauseForest.Proofs.Prover.LeastModel
import ClauseForest.Proofs.Prover.Success
import Mathlib.Control.Monad.Basic

set_option relaxedAutoImplicit false
set_option autoImplicit false

namespace ClauseForest

/-! ### Conditions on rules and queries -/

/-- Every variable of the head occurs in the body. -/
def Rule.IsRangeRestricted (r : Rule) : Prop :=
  ∀ arg ∈ r.head.args, isVariable arg = true → ∃ literal ∈ r.body, arg ∈ literal.args

instance (r : Rule) : Decidable r.IsRangeRestricted := by
  unfold Rule.IsRangeRestricted
  infer_instance

/-- A variable that a literal of the body repeats occurs in an earlier literal. -/
def Rule.BindsRepeats (r : Rule) : Prop :=
  ∀ i, ∀ h : i < r.body.length, ∀ var ∈ r.body[i].args, isVariable var = true →
    1 < r.body[i].args.count var → ∃ earlier ∈ r.body.take i, var ∈ earlier.args

instance (r : Rule) : Decidable r.BindsRepeats := by
  unfold Rule.BindsRepeats
  infer_instance

/-- A term without repeated variables. -/
def Term.IsLinear (t : Term) : Prop :=
  ∀ var ∈ t.args, isVariable var = true → t.args.count var ≤ 1

instance (t : Term) : Decidable t.IsLinear := by
  unfold Term.IsLinear
  infer_instance

theorem Rule.BindsRepeats.exists_earlier {r : Rule} (h : r.BindsRepeats) {done rest : List Term}
    {literal : Term} (hbody : r.body = done ++ literal :: rest) {var : String}
    (hvar : isVariable var = true) (hcount : 1 < literal.args.count var) :
    ∃ earlier ∈ done, var ∈ earlier.args := by
  have hlength : done.length < r.body.length := by simp [hbody]
  have hget : r.body[done.length] = literal := by simp [hbody]
  have hmem : var ∈ literal.args := List.count_pos_iff.1 (by omega)
  have hearlier := h done.length hlength var (hget ▸ hmem) hvar (hget ▸ hcount)
  simpa [hbody] using hearlier

/-! ### The invariant -/

/-- A literal that was proved: its arguments have values, and with these it is derivable. -/
def Settled (program : List Rule) (b : Bindings) (literal : Term) : Prop :=
  ∃ values, literal.ValuesIn b values ∧ Derivable program ⟨literal.predicate, values⟩

theorem Settled.mono {program : List Rule} {b c : Bindings} {literal : Term}
    (h : Settled program b literal) (hbc : b ≤ c) : Settled program c literal := by
  obtain ⟨values, hvalues, hderivable⟩ := h
  exact ⟨values, hvalues.mono hbc, hderivable⟩

/-- The literals of a rule that are not open any more were proved. -/
structure Frame.WorksOn (program : List Rule) (rule : Rule) (f : Frame) : Prop where
  ground : f.bindings.IsGround
  head : f.head = rule.head
  settled : ∃ done, rule.body = done ++ f.todo ∧
    ∀ literal ∈ done, Settled program f.bindings literal

/-- The first open literal of a frame waits for another frame, which has all that it was given. -/
def Frame.Awaits (caller f : Frame) : Prop :=
  ∃ slot rest, caller.todo = slot :: rest ∧ f.head.key = slot.key ∧
    ∀ pair ∈ slot.args.zip f.head.args, ∀ value, caller.bindings.valueOf pair.1 = some value →
      f.bindings.valueOf pair.2 = some value

/-- A frame that is awaited may get more values. -/
theorem Frame.Awaits.mono {caller f f' : Frame} (h : caller.Awaits f) (hhead : f'.head = f.head)
    (hle : f.bindings ≤ f'.bindings) : caller.Awaits f' := by
  obtain ⟨slot, rest, htodo, hkey, hgiven⟩ := h
  refine ⟨slot, rest, htodo, hhead ▸ hkey, fun pair hpair value hvalue => ?_⟩
  rw [hhead] at hpair
  exact hle _ _ (hgiven pair hpair value hvalue)

/-- An entered rule has all that it was given. -/
theorem Frame.awaits_of_enter {literal : Term} {b : Bindings} {rule : Rule} {frame : Frame}
    (h : Frame.enter? literal b rule = some frame) (head : Term) (rest : List Term) :
    Frame.Awaits ⟨head, literal :: rest, b⟩ frame := by
  obtain ⟨hagrees, rfl⟩ := Frame.enter?_eq_some_iff.1 h
  exact ⟨literal, rest, rfl, key_eq_of_agrees hagrees, valueOf_of_unify hagrees⟩

@[simp] theorem Frame.head_resume (caller finished : Frame) :
    (caller.resume finished).head = caller.head := by
  unfold Frame.resume
  split <;> rfl

/-- A resumed frame keeps its values. -/
theorem Frame.le_resume (caller finished : Frame) :
    caller.bindings ≤ (caller.resume finished).bindings := by
  unfold Frame.resume
  split
  · exact Bindings.le_refl _
  · exact le_unify _ _ _ _

/-- The rule whose only condition is the query. -/
def Rule.ofQuery (query : Term) : Rule := ⟨⟨"query", []⟩, [query]⟩

/-- A frame and those that wait for it: the outermost works on the query, all others on rules. -/
def Branch.Sound (program : List Rule) (query : Term) : Frame → List Frame → Prop
  | f, [] => f.WorksOn program (.ofQuery query)
  | f, caller :: callers =>
    (∃ rule ∈ program, f.WorksOn program rule) ∧ caller.Awaits f ∧
      Sound program query caller callers

namespace Branch.Sound

variable {program : List Rule} {query : Term}

theorem ofQuery : Sound program query ⟨⟨"query", []⟩, [query], .empty⟩ [] where
  ground := Bindings.isGround_empty
  head := rfl
  settled := ⟨[], rfl, by simp⟩

/-- The frame of a branch may be replaced by one that works on the same rule and has more values. -/
theorem grow {f f' : Frame} {callers : List Frame} (h : Sound program query f callers)
    (hhead : f'.head = f.head) (hle : f.bindings ≤ f'.bindings)
    (hworks : ∀ rule, rule ∈ program ∨ rule = .ofQuery query → f.WorksOn program rule →
      f'.WorksOn program rule) : Sound program query f' callers := by
  cases callers with
  | nil => exact hworks _ (.inr rfl) h
  | cons caller callers =>
      obtain ⟨⟨rule, hrule, hf⟩, hawaits, hcallers⟩ := h
      exact ⟨⟨rule, hrule, hworks rule (.inl hrule) hf⟩, hawaits.mono hhead hle, hcallers⟩

end Branch.Sound

/-! ### Finished rules -/

/-- A finished rule has values for its head, and with these its head is derivable. -/
theorem Frame.WorksOn.settled_head {program : List Rule} {rule : Rule} (hrule : rule ∈ program)
    (hrange : rule.IsRangeRestricted) {head : Term} {b : Bindings}
    (h : Frame.WorksOn program rule ⟨head, [], b⟩) : Settled program b head := by
  obtain ⟨hground, rfl, done, hbody, hdone⟩ := h
  rw [List.append_nil] at hbody
  subst hbody
  obtain ⟨values, hvalues⟩ : ∃ values, rule.head.ValuesIn b values := by
    refine Term.exists_valuesIn fun arg harg => ?_
    cases hv : isVariable arg with
    | false => simp [b.valueOf_of_constant hv]
    | true =>
        obtain ⟨literal, hliteral, hmem⟩ := hrange arg harg hv
        obtain ⟨values, hvalues, -⟩ := hdone literal hliteral
        exact hvalues.isSome arg hmem
  refine ⟨values, hvalues, ?_⟩
  rw [← (Bindings.respects_grounding hground).term_eq hvalues]
  refine .of_rule hrule (b.grounding hground) fun literal hliteral => ?_
  obtain ⟨values, hvalues, hderivable⟩ := hdone literal hliteral
  rwa [(Bindings.respects_grounding hground).term_eq hvalues]

/-- A waiting rule that takes over the values of a proved head has proved its literal. -/
theorem Frame.WorksOn.resume {program : List Rule} {rule : Rule} (hrepeats : rule.BindsRepeats)
    {caller finished : Frame} (hcaller : caller.WorksOn program rule)
    (hawaits : caller.Awaits finished) (hground : finished.bindings.IsGround)
    (hsettled : Settled program finished.bindings finished.head) :
    (caller.resume finished).WorksOn program rule := by
  obtain ⟨slot, rest, htodo, hkey, hgiven⟩ := hawaits
  obtain ⟨values, hvalues, hderivable⟩ := hsettled
  obtain ⟨hcallerGround, hhead, done, hbody, hdone⟩ := hcaller
  obtain ⟨hpredicate, harity⟩ := Prod.mk.inj hkey
  rw [htodo] at hbody
  -- a repeated variable of the literal has a value from an earlier literal
  have hdistinct : slot.Distinct caller.bindings := by
    intro var hnone
    refine Nat.le_of_not_lt fun hcount => ?_
    obtain ⟨earlier, hearlier, hmem⟩ := hrepeats.exists_earlier hbody
      (Bindings.isVariable_of_valueOf_eq_none hnone) hcount
    obtain ⟨values, hvalues, -⟩ := hdone earlier hearlier
    have hsome := hvalues.isSome var hmem
    rw [hnone] at hsome
    cases hsome
  have hle := le_unify finished.head finished.bindings slot caller.bindings
  have hslot := valuesIn_unify hpredicate harity hvalues hgiven hdistinct
  have hresume : caller.resume finished = ⟨caller.head, rest,
      (unify finished.head finished.bindings slot caller.bindings).bindings⟩ := by
    unfold Frame.resume
    rw [htodo]
  rw [hresume]
  refine ⟨isGround_unify hground _ _ hcallerGround, hhead, done ++ [slot], by simp [hbody], ?_⟩
  intro literal hliteral
  rcases List.mem_append.1 hliteral with hliteral | hliteral
  · exact (hdone literal hliteral).mono hle
  · rw [List.mem_singleton.1 hliteral]
    exact ⟨values, hslot, hpredicate ▸ hderivable⟩

/-! ### Steps keep the invariant -/

section

variable {program : List Rule} {query : Term}

theorem Rule.bindsRepeats_ofQuery (hquery : query.IsLinear) :
    (Rule.ofQuery query).BindsRepeats := by
  intro i hi var hmem hvar hcount
  have hi : i = 0 := Nat.lt_one_iff.1 hi
  subst hi
  have hle : query.args.count var ≤ 1 := hquery var hmem hvar
  have hlt : 1 < query.args.count var := hcount
  omega

/-- A resumed branch keeps the invariant. -/
theorem Branch.Sound.resume (hrange : ∀ rule ∈ program, rule.IsRangeRestricted)
    (hrepeats : ∀ rule ∈ program, rule.BindsRepeats) (hquery : query.IsLinear) {head : Term}
    {b : Bindings} {caller : Frame} {callers : List Frame}
    (h : Sound program query ⟨head, [], b⟩ (caller :: callers)) :
    Sound program query (caller.resume ⟨head, [], b⟩) callers := by
  obtain ⟨⟨rule, hrule, hworks⟩, hawaits, hcallers⟩ := h
  have hsettled := hworks.settled_head hrule (hrange rule hrule)
  refine hcallers.grow (caller.head_resume _) (caller.le_resume _) fun other hother hcaller => ?_
  refine hcaller.resume ?_ hawaits hworks.ground hsettled
  rcases hother with hother | rfl
  · exact hrepeats other hother
  · exact Rule.bindsRepeats_ofQuery hquery

/-- A branch with a rule entered keeps the invariant. -/
theorem Branch.Sound.enter {head literal : Term} {rest : List Term} {b : Bindings}
    {callers : List Frame} {rule : Rule} {frame : Frame} (hrule : rule ∈ program)
    (hframe : Frame.enter? literal b rule = some frame)
    (h : Sound program query ⟨head, literal :: rest, b⟩ callers) :
    Sound program query frame (⟨head, literal :: rest, b⟩ :: callers) := by
  have hground : b.IsGround := by
    cases callers with
    | nil => exact h.ground
    | cons caller callers =>
        obtain ⟨⟨other, hother, hworks⟩, -, -⟩ := h
        exact hworks.ground
  refine ⟨⟨rule, hrule, ?_⟩, Frame.awaits_of_enter hframe head rest, h⟩
  obtain ⟨-, rfl⟩ := Frame.enter?_eq_some_iff.1 hframe
  exact ⟨isGround_unify hground _ _ Bindings.isGround_empty, rfl, [], rfl, by simp⟩

theorem exists_derivable_of_succeeds {s : Session} (hs : s.Uses program)
    (hrange : ∀ rule ∈ program, rule.IsRangeRestricted)
    (hrepeats : ∀ rule ∈ program, rule.BindsRepeats) (hquery : query.IsLinear) {branch : Branch}
    (h : s.Succeeds branch) (hsound : Branch.Sound program query branch.top branch.callers) :
    ∃ θ : Grounding, Derivable program (θ.term query) := by
  induction h with
  | proved head b =>
      obtain ⟨hground, -, done, hbody, hdone⟩ := hsound
      rw [List.append_nil] at hbody
      obtain ⟨values, hvalues, hderivable⟩ := hdone query (by simp [← hbody, Rule.ofQuery])
      rw [← (Bindings.respects_grounding hground).term_eq hvalues] at hderivable
      exact ⟨b.grounding hground, hderivable⟩
  | resume _ ih => exact ih (hsound.resume hrange hrepeats hquery)
  | enter hrule hframe _ ih =>
      obtain ⟨hmem, -⟩ := (hs _ _).1 hrule
      exact ih (hsound.enter hmem hframe)

end

/-! ### Soundness -/

/-- **Soundness.**  Let every variable of a head occur in the body, and every variable that a
literal of a body repeats in an earlier literal.  Then some instance of a query that is proved is
derivable, and a query without variables is derivable itself. -/
theorem Session.derivable_of_prove (rules : List Rule) (clause : Option Rule) (limit : Option Nat)
    (query : Term) (hrange : ∀ rule ∈ rules ++ clause.toList, rule.IsRangeRestricted)
    (hrepeats : ∀ rule ∈ rules ++ clause.toList, rule.BindsRepeats) (hquery : query.IsLinear)
    (h : Session.prove ⟨.ofList rules, clause, limit⟩ query = .ok true) :
    (∃ θ : Grounding, Derivable (rules ++ clause.toList) (θ.term query)) ∧
      (query.IsGround → Derivable (rules ++ clause.toList) query) := by
  obtain ⟨θ, hθ⟩ := exists_derivable_of_succeeds (Session.uses_ofList rules clause limit) hrange
    hrepeats hquery (succeeds_of_prove h) Branch.Sound.ofQuery
  refine ⟨⟨θ, hθ⟩, fun hground => ?_⟩
  rwa [θ.term_of_isGround hground] at hθ

/-- The theorem at a chain of edges, where the clause calls itself. -/
theorem Session.derivable_of_prove_chain :
    Session.prove ⟨.ofList chainRules, some chainClause, some 50⟩ ⟨"reach", ["a", "c"]⟩ = .ok true ∧
      Derivable (chainRules ++ [chainClause]) ⟨"reach", ["a", "c"]⟩ := by
  have hproved : Session.prove ⟨.ofList chainRules, some chainClause, some 50⟩
      ⟨"reach", ["a", "c"]⟩ = .ok true := by decide +kernel
  exact ⟨hproved, (Session.derivable_of_prove chainRules (some chainClause) (some 50)
    ⟨"reach", ["a", "c"]⟩ (by decide) (by decide) (by decide) hproved).2 (by decide)⟩

end ClauseForest
