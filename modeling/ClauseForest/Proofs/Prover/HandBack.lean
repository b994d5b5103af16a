/-
**Handing values back**

A finished rule hands the values of its head to the rule that waits for it, by matching the head
against the literal that waits.  Whether this matching succeeds makes no difference to the search,
because the literal did match the head when the rule was entered.

But it matched under other bindings.  A variable of the literal that had no value asked for nothing at
that time, and if the literal repeats it, then two different values may come back for it.  This is the
only way in which the matching on the way back can fail: all values that the literal had, the head
still has.

Main definitions:

* `Session.Visits` — the stacks that a search comes to;
* `Branch.Linked` — every frame of a branch waits for the next one, which has all that it was given;
* `Term.Clashes` — two different values come back for one variable.

Main results:

* `Session.Visits.forall_mem` — what every step keeps holds of all branches that a search comes to;
* `Session.agrees_handBack_iff` — **values are handed back unless they clash**.
-/

import ClauseForest.Proofs.Prover.FactBase
import ClauseForest.Proofs.Prover.Soundness

set_option relaxedAutoImplicit false
set_option autoImplicit false

namespace ClauseForest

/-! ### The stacks of a search -/

/-- The stacks that the search for a proof of a query comes to. -/
inductive Session.Visits (s : Session) (query : Term) : List Branch → Prop
  /-- The search begins with the query alone. -/
  | start : Visits s query [.ofQuery query]
  /-- The search goes on with the stack after one step. -/
  | step {stack stack' : List Branch} (h : Visits s query stack)
      (hnext : s.next stack = .inl stack') : Visits s query stack'

/-- What every step keeps holds of all branches that a search comes to. -/
theorem Session.Visits.forall_mem {s : Session} {query : Term} {P : Branch → Prop}
    (hstart : P (.ofQuery query))
    (hstep : ∀ b nexts, P b → s.advance b = .branches nexts → ∀ next ∈ nexts, P next)
    {stack : List Branch} (h : s.Visits query stack) : ∀ b ∈ stack, P b := by
  induction h with
  | start => exact fun b hb => List.mem_singleton.1 hb ▸ hstart
  | @step stack _ _ hnext ih =>
      cases stack with
      | nil => cases hnext
      | cons branch rest =>
          rw [Session.next] at hnext
          cases hadvance : s.advance branch with
          | proved => simp [hadvance] at hnext
          | branches nexts =>
              simp only [hadvance, Sum.inl.injEq] at hnext
              subst hnext
              intro b hb
              rcases List.mem_append.1 hb with hb | hb
              · exact hstep branch nexts (ih branch (by simp)) hadvance b hb
              · exact ih b (List.mem_cons_of_mem _ hb)

/-! ### Frames that wait for each other -/

/-- Every frame of a branch waits for the one that it called, which has all that it was given. -/
def Branch.Linked : Frame → List Frame → Prop
  | _, [] => True
  | f, caller :: callers => caller.Awaits f ∧ Linked caller callers

/-- What is open in a resumed frame was open before. -/
theorem Frame.mem_todo_of_resume {caller finished : Frame} {literal : Term}
    (h : literal ∈ (caller.resume finished).todo) : literal ∈ caller.todo := by
  unfold Frame.resume at h
  split at h
  · exact h
  · rename_i slot todo htodo
    rw [htodo]
    exact List.mem_cons_of_mem _ h

namespace Session

variable {s : Session} {query : Term}

/-- One step keeps all frames linked. -/
theorem linked_of_advance {b : Branch} {nexts : List Branch} (hb : Branch.Linked b.top b.callers)
    (hadvance : s.advance b = .branches nexts) :
    ∀ next ∈ nexts, Branch.Linked next.top next.callers := by
  obtain ⟨⟨head, todo, bindings⟩, callers⟩ := b
  intro next hnext
  cases todo with
  | nil =>
      cases callers with
      | nil => cases hadvance
      | cons caller callers =>
          cases hadvance
          rw [List.mem_singleton.1 hnext]
          cases callers with
          | nil => trivial
          | cons outer callers =>
              exact hb.2.imp_left (·.mono (caller.head_resume _) (caller.le_resume _))
  | cons literal todo =>
      obtain ⟨rule, -, frame, hframe, rfl⟩ := mem_advance_iff.1 ⟨nexts, hadvance, hnext⟩
      exact ⟨Frame.awaits_of_enter hframe head todo, hb⟩

/-- All frames of all branches that a search comes to are linked. -/
theorem Visits.linked {stack : List Branch} (h : s.Visits query stack) :
    ∀ b ∈ stack, Branch.Linked b.top b.callers :=
  h.forall_mem (P := fun b => Branch.Linked b.top b.callers) trivial
    fun _ _ => linked_of_advance

/-- One step opens literals of the program only. -/
theorem mem_body_of_advance {program : List Rule} (hs : s.Uses program) {P : Term → Prop}
    (hP : ∀ rule ∈ program, ∀ literal ∈ rule.body, P literal) {b : Branch} {nexts : List Branch}
    (hb : ∀ f ∈ b.top :: b.callers, ∀ literal ∈ f.todo, P literal)
    (hadvance : s.advance b = .branches nexts) :
    ∀ next ∈ nexts, ∀ f ∈ next.top :: next.callers, ∀ literal ∈ f.todo, P literal := by
  obtain ⟨⟨head, todo, bindings⟩, callers⟩ := b
  intro next hnext f hf literal hliteral
  cases todo with
  | nil =>
      cases callers with
      | nil => cases hadvance
      | cons caller callers =>
          cases hadvance
          rw [List.mem_singleton.1 hnext] at hf
          rcases List.mem_cons.1 hf with rfl | hf
          · exact hb caller (by simp) literal (Frame.mem_todo_of_resume hliteral)
          · exact hb f (by simp [hf]) literal hliteral
  | cons first todo =>
      obtain ⟨rule, hrule, frame, hframe, rfl⟩ := mem_advance_iff.1 ⟨nexts, hadvance, hnext⟩
      rcases List.mem_cons.1 hf with rfl | hf
      · obtain ⟨-, rfl⟩ := Frame.enter?_eq_some_iff.1 hframe
        exact hP rule ((hs _ _).1 hrule).1 literal hliteral
      · exact hb f hf literal hliteral

/-- The literals that wait come from the query and the bodies of rules. -/
theorem Visits.mem_todo {program : List Rule} (hs : s.Uses program) {stack : List Branch}
    (h : s.Visits query stack) : ∀ b ∈ stack, ∀ f ∈ b.top :: b.callers, ∀ literal ∈ f.todo,
      literal = query ∨ ∃ rule ∈ program, literal ∈ rule.body := by
  refine h.forall_mem (P := fun b => ∀ f ∈ b.top :: b.callers, ∀ literal ∈ f.todo,
    literal = query ∨ ∃ rule ∈ program, literal ∈ rule.body) ?_ fun b nexts hb hadvance => ?_
  · intro f hf literal hliteral
    rw [List.mem_singleton.1 hf] at hliteral
    exact .inl (List.mem_singleton.1 hliteral)
  · exact mem_body_of_advance hs (fun rule hrule literal hliteral => .inr ⟨rule, hrule, hliteral⟩)
      hb hadvance

end Session

/-! ### The way back -/

/-- Two different values of a head stand against a variable of a literal that has no value. -/
def Term.Clashes (head : Term) (b : Bindings) (slot : Term) (c : Bindings) : Prop :=
  ∃ pair ∈ head.args.zip slot.args, ∃ other ∈ head.args.zip slot.args,
    pair.2 = other.2 ∧ c.valueOf pair.2 = none ∧
      ∃ value value', b.valueOf pair.1 = some value ∧ b.valueOf other.1 = some value' ∧
        value ≠ value'

/-- No values clash in a literal that repeats no variable without a value. -/
theorem Term.Distinct.not_clashes {slot : Term} {c : Bindings} (h : slot.Distinct c) (head : Term)
    (b : Bindings) : ¬ head.Clashes b slot c := by
  rintro ⟨⟨arg, token⟩, hpair, ⟨arg', token'⟩, hother, rfl, hnone, value, value', hvalue, hvalue', hne⟩
  obtain rfl := eq_of_mem_zip_of_count_le_one (h token hnone) hpair hother
  exact hne (Option.some.inj (hvalue.symm.trans hvalue'))

theorem Term.IsLinear.distinct {slot : Term} (h : slot.IsLinear) (c : Bindings) :
    slot.Distinct c := by
  intro var hnone
  by_cases hmem : var ∈ slot.args
  · exact h var hmem (Bindings.isVariable_of_valueOf_eq_none hnone)
  · simp [List.count_eq_zero.2 hmem]

/-- A finished frame hands its values back unless they clash. -/
theorem Frame.Awaits.agrees_iff {caller f : Frame} {slot : Term} {todo : List Term}
    (h : caller.Awaits f) (htodo : caller.todo = slot :: todo) :
    (unify f.head f.bindings slot caller.bindings).agrees = true ↔
      ¬ f.head.Clashes f.bindings slot caller.bindings := by
  obtain ⟨slot', todo', htodo', hkey, hgiven⟩ := h
  obtain ⟨rfl, rfl⟩ := List.cons.inj (htodo.symm.trans htodo')
  obtain ⟨hpredicate, harity⟩ := Prod.mk.inj hkey
  -- where the literal has a value, the head has the same
  have hkept : ∀ pair ∈ f.head.args.zip slot.args, ∀ value bound,
      f.bindings.valueOf pair.1 = some value → caller.bindings.valueOf pair.2 = some bound →
        bound = value := by
    intro pair hpair value bound hvalue hbound
    have hswap : pair.swap ∈ slot.args.zip f.head.args := by
      rw [← List.zip_swap]
      exact List.mem_map_of_mem hpair
    exact Option.some.inj ((hgiven pair.swap hswap bound hbound).symm.trans hvalue)
  rw [agrees_unify_iff]
  constructor
  · rintro ⟨-, -, -, hrepeats⟩ ⟨pair, hpair, other, hother, heq, -, value, value', hvalue, hvalue', hne⟩
    exact hne (hrepeats pair hpair other hother heq value value' hvalue hvalue')
  · intro hclash
    refine ⟨hpredicate, harity, hkept, ?_⟩
    intro pair hpair other hother heq value value' hvalue hvalue'
    cases hbound : caller.bindings.valueOf pair.2 with
    | none =>
        by_contra hne
        exact hclash ⟨pair, hpair, other, hother, heq, hbound, value, value', hvalue, hvalue', hne⟩
    | some bound =>
        rw [← hkept pair hpair value bound hvalue hbound]
        exact hkept other hother value' bound hvalue' (heq ▸ hbound)

namespace Session

/-- Values are handed back unless they clash.  In a session over facts and a clause, let the innermost
rule of the branch on top of a stack be finished, with another one waiting for it.  Then the first open
literal of the waiting rule is the query or a condition of the clause, and has the form of the finished
head.  The head matches it exactly if no two different values come back for a variable that has none,
as is the case for every literal without repeated variables; and then the literal has all values of the
head.  The waiting rule goes on in any case. -/
theorem agrees_handBack_iff (rules : List Rule) (clause : Rule) (limit : Option Nat) (query : Term)
    (hrules : AreFacts rules) {head : Term} {b : Bindings} {caller : Frame} {callers : List Frame}
    {rest : List Branch} (h : Visits ⟨.ofList rules, some clause, limit⟩ query
      (⟨⟨head, [], b⟩, caller :: callers⟩ :: rest)) :
    ∃ slot todo, caller.todo = slot :: todo ∧ (slot = query ∨ slot ∈ clause.body) ∧
      head.predicate = slot.predicate ∧ head.arity = slot.arity ∧
      ((unify head b slot caller.bindings).agrees = true ↔
        ¬ head.Clashes b slot caller.bindings) ∧
      (slot.IsLinear → (unify head b slot caller.bindings).agrees = true) ∧
      ((unify head b slot caller.bindings).agrees = true →
        ∀ pair ∈ head.args.zip slot.args, ∀ value, b.valueOf pair.1 = some value →
          (unify head b slot caller.bindings).bindings.valueOf pair.2 = some value) ∧
      caller.resume ⟨head, [], b⟩ =
        ⟨caller.head, todo, (unify head b slot caller.bindings).bindings⟩ := by
  obtain ⟨hawaits, -⟩ := h.linked _ (List.mem_cons_self ..)
  obtain ⟨slot, todo, htodo, hkey, -⟩ := id hawaits
  obtain ⟨hpredicate, harity⟩ := Prod.mk.inj hkey
  have hiff := hawaits.agrees_iff htodo
  have hslot : slot = query ∨ slot ∈ clause.body := by
    have huses := uses_ofList rules (some clause) limit
    have hmem := h.mem_todo huses _ (List.mem_cons_self ..) caller (by simp) slot (by simp [htodo])
    refine hmem.imp_right fun ⟨rule, hrule, hbody⟩ => ?_
    rcases List.mem_append.1 hrule with hrule | hrule
    · rw [(hrules rule hrule).1] at hbody
      cases hbody
    · exact List.mem_singleton.1 hrule ▸ hbody
  refine ⟨slot, todo, htodo, hslot, hpredicate, harity, hiff, fun hlinear => ?_, valueOf_of_unify, ?_⟩
  · exact hiff.2 ((hlinear.distinct caller.bindings).not_clashes head b)
  · unfold Frame.resume
    rw [htodo]

/-- A search comes to a fact that answers a condition with a repeated variable. -/
theorem visits_likes : Visits
    ⟨.ofList [⟨⟨"likes", ["eve", "kim"]⟩, []⟩],
      some ⟨⟨"cancer", ["A"]⟩, [⟨"likes", ["B", "B"]⟩]⟩, none⟩ ⟨"cancer", ["dan"]⟩
    [⟨⟨⟨"likes", ["eve", "kim"]⟩, [], .empty⟩,
      [⟨⟨"cancer", ["A"]⟩, [⟨"likes", ["B", "B"]⟩], Bindings.empty.bind "A" "dan"⟩,
        ⟨⟨"query", []⟩, [⟨"cancer", ["dan"]⟩], .empty⟩]⟩] :=
  .step (.step .start rfl) rfl

/-- The two values of a fact clash in a condition that repeats a variable.  The search comes to the place
where they are handed back, they do not match there, and the waiting rule goes on with the first one. -/
theorem agrees_handBack_iff_likes :
    AreFacts [⟨⟨"likes", ["eve", "kim"]⟩, []⟩] ∧
      Visits ⟨.ofList [⟨⟨"likes", ["eve", "kim"]⟩, []⟩],
          some ⟨⟨"cancer", ["A"]⟩, [⟨"likes", ["B", "B"]⟩]⟩, none⟩ ⟨"cancer", ["dan"]⟩
        [⟨⟨⟨"likes", ["eve", "kim"]⟩, [], .empty⟩,
          [⟨⟨"cancer", ["A"]⟩, [⟨"likes", ["B", "B"]⟩], Bindings.empty.bind "A" "dan"⟩,
            ⟨⟨"query", []⟩, [⟨"cancer", ["dan"]⟩], .empty⟩]⟩] ∧
      Term.Clashes ⟨"likes", ["eve", "kim"]⟩ .empty ⟨"likes", ["B", "B"]⟩
        (Bindings.empty.bind "A" "dan") ∧
      (unify ⟨"likes", ["eve", "kim"]⟩ .empty ⟨"likes", ["B", "B"]⟩
        (Bindings.empty.bind "A" "dan")).agrees = false ∧
      Frame.resume ⟨⟨"cancer", ["A"]⟩, [⟨"likes", ["B", "B"]⟩], Bindings.empty.bind "A" "dan"⟩
          ⟨⟨"likes", ["eve", "kim"]⟩, [], .empty⟩ =
        ⟨⟨"cancer", ["A"]⟩, [], (Bindings.empty.bind "A" "dan").bind "B" "eve"⟩ := by
  have hfacts : AreFacts [⟨⟨"likes", ["eve", "kim"]⟩, []⟩] := by decide
  have hagrees : (unify ⟨"likes", ["eve", "kim"]⟩ .empty ⟨"likes", ["B", "B"]⟩
      (Bindings.empty.bind "A" "dan")).agrees = false := by decide
  obtain ⟨slot, todo, htodo, -, -, -, hiff, -, -, hresume⟩ :=
    agrees_handBack_iff _ _ none ⟨"cancer", ["dan"]⟩ hfacts visits_likes
  obtain ⟨rfl, rfl⟩ := List.cons.inj htodo
  refine ⟨hfacts, visits_likes, ?_, hagrees, hresume⟩
  by_contra hclash
  rw [hiff.2 hclash] at hagrees
  cases hagrees

/-- Not every hand-over succeeds, not even over facts and for a query without variables. -/
theorem not_forall_agrees_handBack :
    ¬ ∀ (rules : List Rule) (clause : Rule) (limit : Option Nat) (query head : Term) (b : Bindings)
        (caller : Frame) (callers : List Frame) (rest : List Branch),
      AreFacts rules → query.IsGround →
        Visits ⟨.ofList rules, some clause, limit⟩ query
          (⟨⟨head, [], b⟩, caller :: callers⟩ :: rest) →
        ∃ slot todo, caller.todo = slot :: todo ∧
          (unify head b slot caller.bindings).agrees = true := by
  intro hall
  obtain ⟨slot, todo, htodo, hagrees⟩ :=
    hall _ _ none _ _ _ _ _ _ (by decide) (by decide) visits_likes
  obtain ⟨rfl, rfl⟩ := List.cons.inj htodo
  exact absurd hagrees (by decide)

end Session

end ClauseForest
