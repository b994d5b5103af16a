/-
**Which rule is followed first**

The rules for a literal are looked up in the order in which they were added, facts before the clause.
They are followed in the opposite order: every rule that can be entered puts a branch on the stack,
and the last one comes to lie on top.  So the clause goes first, and a fact gets its turn only once
everything below the clause has come to an end without a proof.

For a query that is itself a fact this has consequences.  It is never denied.  If the clause cannot be
entered for it, it is proved in three steps, whatever the clause is.  In all other cases the time that
this takes, and whether it happens at all, depends on the clause.  A clause whose first condition
calls the clause again goes on calling itself, and the fact that would end the search is never looked
at.

Main definitions:

* `Rule.CallsItselfFirst` — the first condition of a rule calls the rule itself, whatever values it
  has got;
* `Session.opened` — the branches that rules open for a literal, the last rule first.

Main results:

* `Rule.callsItselfFirst_of_nodup` — how to tell such a rule by its text;
* `Session.advance_ofList`, `Session.advance_of_enter` — the branches that one step opens;
* `Session.searchFor_append` — **what lies below on the stack waits for what lies above**;
* `Session.prove_of_callsItselfFirst` — **a clause that calls itself first keeps the search busy
  forever**, whatever the other rules are;
* `Session.prove_of_fact` — **when a query that is a fact is proved**.
-/

import ClauseForest.Proofs.Logic.Matching
import ClauseForest.Proofs.Prover.Settling

set_option relaxedAutoImplicit false
set_option autoImplicit false

namespace ClauseForest

/-! ### Rules that call themselves first -/

/-- The first condition of a rule calls the rule itself, whatever values it has got. -/
def Rule.CallsItselfFirst (r : Rule) : Prop :=
  ∃ literal conditions, r.body = literal :: conditions ∧
    ∀ b : Bindings, b.IsGround → (unify literal b r.head .empty).agrees = true

/-- Slots that hold different unbound variables take any values. -/
theorem agrees_unifyArgs_of_nodup {args slots : List String} (hnodup : slots.Nodup) (b : Bindings)
    {target : Bindings} (htarget : ∀ slot ∈ slots, target.valueOf slot = none) :
    (unifyArgs b args slots target).agrees = true := by
  have hcount : ∀ slot, target.valueOf slot = none → slots.count slot ≤ 1 :=
    fun slot _ => List.nodup_iff_count_le_one.1 hnodup slot
  refine agrees_unifyArgs_of_compatible ((compatible_iff_of_count_le_one hcount).2 ?_)
  intro pair hpair value bound _ hbound
  rw [htarget _ (List.of_mem_zip hpair).2] at hbound
  cases hbound

/-- A rule calls itself first if its head has different variables as its arguments, and its first
condition has the same predicate and as many arguments. -/
theorem Rule.callsItselfFirst_of_nodup {r : Rule} {literal : Term} {conditions : List Term}
    (hbody : r.body = literal :: conditions) (hkey : literal.key = r.head.key)
    (hvars : ∀ arg ∈ r.head.args, isVariable arg = true) (hnodup : r.head.args.Nodup) :
    r.CallsItselfFirst := by
  refine ⟨literal, conditions, hbody, fun b _ => ?_⟩
  obtain ⟨hpredicate, harity⟩ := Prod.mk.inj hkey
  unfold unify
  rw [if_pos ⟨hpredicate, harity⟩]
  refine agrees_unifyArgs_of_nodup hnodup b fun slot hslot => ?_
  simp [Bindings.valueOf_of_isVariable, hvars slot hslot]

namespace Session

variable {s : Session} {rules : List Rule} {clause : Rule} {limit : Option Nat}

/-! ### The order of branches -/

/-- The branches that rules open for a literal, the last rule first. -/
def opened (rules : List Rule) (literal : Term) (caller : Frame) (callers : List Frame) :
    List Branch :=
  rules.reverse.filterMap fun rule =>
    (Frame.enter? literal caller.bindings rule).map fun frame => ⟨frame, caller :: callers⟩

theorem opened_append (rules more : List Rule) (literal : Term) (caller : Frame)
    (callers : List Frame) : opened (rules ++ more) literal caller callers =
      opened more literal caller callers ++ opened rules literal caller callers := by
  simp [opened]

/-- The branches that one step opens.  Those of the clause lie on top. -/
theorem advance_ofList (rules : List Rule) (clause : Option Rule) (limit : Option Nat)
    (head literal : Term) (rest : List Term) (b : Bindings) (callers : List Frame) :
    advance ⟨.ofList rules, clause, limit⟩ ⟨⟨head, literal :: rest, b⟩, callers⟩ =
      .branches (opened (rules ++ clause.toList) literal ⟨head, literal :: rest, b⟩ callers) := by
  simp only [advance, opened, candidates_ofList]
  rw [← List.filter_reverse, List.filterMap_filter]
  refine congrArg Progress.branches (List.filterMap_congr fun rule _ => ?_)
  -- a rule under another key opens no branch anyway
  split
  · rfl
  · rename_i hkey
    cases hframe : Frame.enter? literal b rule with
    | none => rfl
    | some frame =>
        have hagrees := (Frame.enter?_eq_some_iff.1 hframe).1
        exact absurd (key_eq_of_agrees hagrees) (by simpa using hkey)

/-- If the clause can be entered for a literal, it comes to lie on top. -/
theorem advance_of_enter {head literal : Term} {rest : List Term} {b : Bindings} {frame : Frame}
    (hframe : Frame.enter? literal b clause = some frame) (callers : List Frame) :
    advance ⟨.ofList rules, some clause, limit⟩ ⟨⟨head, literal :: rest, b⟩, callers⟩ =
      .branches (⟨frame, ⟨head, literal :: rest, b⟩ :: callers⟩ ::
        opened rules literal ⟨head, literal :: rest, b⟩ callers) := by
  rw [advance_ofList, opened_append]
  simp [opened, hframe]

/-- What lies below on the stack waits for what lies above. -/
theorem searchFor_append {n : Nat} {stack rest : List Branch} {answer : Bool} :
    s.searchFor n (stack ++ rest) = some answer ↔
      (s.searchFor n stack = some true ∧ answer = true) ∨
        ∃ k m, k + m = n ∧ s.searchFor k stack = some false ∧ s.searchFor m rest = some answer := by
  induction n generalizing stack with
  | zero =>
      cases stack with
      | nil => simp [searchFor]
      | cons b stack =>
          simp only [List.cons_append, searchFor]
          constructor
          · intro h
            cases h
          · rintro (⟨h, -⟩ | ⟨k, m, hkm, hk, -⟩)
            · cases h
            · obtain rfl : k = 0 := by omega
              cases hk
  | succ n ih =>
      cases stack with
      | nil =>
          constructor
          · intro h
            exact .inr ⟨0, n + 1, by omega, rfl, h⟩
          · rintro (⟨h, -⟩ | ⟨k, m, hkm, -, hm⟩)
            · cases h
            · exact searchFor_mono (by omega) hm
      | cons b stack =>
          rw [List.cons_append, searchFor, searchFor]
          cases hb : s.advance b with
          | proved =>
              simp only [Option.some.injEq]
              constructor
              · intro h
                exact .inl ⟨trivial, h.symm⟩
              · rintro (⟨-, h⟩ | ⟨k, m, -, hk, -⟩)
                · exact h.symm
                · cases k <;> simp [searchFor, hb] at hk
          | branches nexts =>
              simp only [← List.append_assoc]
              rw [ih]
              refine or_congr_right ?_
              constructor
              · rintro ⟨k, m, hkm, hk, hm⟩
                refine ⟨k + 1, m, by omega, ?_, hm⟩
                simpa only [searchFor, hb] using hk
              · rintro ⟨k, m, hkm, hk, hm⟩
                cases k with
                | zero => simp [searchFor] at hk
                | succ k =>
                    simp only [searchFor, hb] at hk
                    exact ⟨k, m, by omega, hk, hm⟩

/-! ### The clause that calls itself -/

/-- The clause that is worked through calls itself, and this goes on forever. -/
theorem searchFor_of_callsItselfFirst {literal : Term} {conditions : List Term}
    (hbody : clause.body = literal :: conditions)
    (hmatch : ∀ b : Bindings, b.IsGround → (unify literal b clause.head .empty).agrees = true)
    {n : Nat} {head : Term} {rest : List Term} {b : Bindings} (hb : b.IsGround)
    {callers : List Frame} {stack : List Branch} :
    searchFor ⟨.ofList rules, some clause, limit⟩ n
      (⟨⟨head, literal :: rest, b⟩, callers⟩ :: stack) = none := by
  induction n generalizing head rest b callers stack with
  | zero => rfl
  | succ n ih =>
      have hground := isGround_unify hb literal clause.head Bindings.isGround_empty
      have hframe := Frame.enter?_eq_some_iff.2 ⟨hmatch b hb, rfl⟩
      -- the clause lies on top again, with its first condition open
      rw [searchFor, advance_of_enter hframe, hbody]
      exact ih hground

/-- A clause that calls itself first keeps the search busy forever, if it can be entered for the
query. -/
theorem prove_of_callsItselfFirst (hclause : clause.CallsItselfFirst) {query : Term} {frame : Frame}
    (hframe : Frame.enter? query .empty clause = some frame) (answer : Bool) :
    prove ⟨.ofList rules, some clause, limit⟩ query ≠ .ok answer := by
  intro h
  obtain ⟨literal, conditions, hbody, hmatch⟩ := hclause
  obtain ⟨n, -, hn⟩ := prove_eq_ok_iff.1 h
  obtain ⟨hagrees, rfl⟩ := Frame.enter?_eq_some_iff.1 hframe
  have hground := isGround_unify Bindings.isGround_empty query clause.head Bindings.isGround_empty
  cases n with
  | zero => cases hn
  | succ n =>
      rw [searchFor, Branch.ofQuery, advance_of_enter hframe, hbody] at hn
      simp only [List.append_nil] at hn
      rw [searchFor_of_callsItselfFirst hbody hmatch hground] at hn
      cases hn

/-! ### Queries that are facts -/

/-- The branches that rules open for a query. -/
def openedFor (rules : List Rule) (query : Term) : List Branch :=
  opened rules query (Branch.ofQuery query).top []

/-- A fact that was entered for the query proves it in two steps. -/
theorem searchFor_fact {n : Nat} {fact head query : Term} {b c : Bindings} {rest : List Branch}
    {answer : Bool} : s.searchFor n (⟨⟨fact, [], b⟩, [⟨head, [query], c⟩]⟩ :: rest) = some answer ↔
      answer = true ∧ 2 ≤ n := by
  match n with
  | 0 => simp [searchFor]
  | 1 => simp [searchFor, advance]
  | n + 2 => simp [searchFor, advance, Frame.resume, eq_comm]

/-- The facts among which a query is found prove it in two steps. -/
theorem searchFor_openedFor (hrules : ∀ rule ∈ rules, rule.body = []) {query : Term}
    (hquery : ∃ rule ∈ rules, rule.head = query) {n : Nat} {answer : Bool} :
    s.searchFor n (openedFor rules query) = some answer ↔ answer = true ∧ 2 ≤ n := by
  have hfacts : ∀ b ∈ openedFor rules query, ∃ fact values,
      b = ⟨⟨fact, [], values⟩, [⟨⟨"query", []⟩, [query], .empty⟩]⟩ := by
    intro b hb
    obtain ⟨rule, hrule, hmap⟩ := List.mem_filterMap.1 hb
    obtain ⟨frame, hframe, rfl⟩ := Option.map_eq_some_iff.1 hmap
    obtain ⟨-, rfl⟩ := Frame.enter?_eq_some_iff.1 hframe
    rw [hrules rule (List.mem_reverse.1 hrule)]
    exact ⟨_, _, rfl⟩
  have hne : openedFor rules query ≠ [] := by
    obtain ⟨rule, hrule, rfl⟩ := hquery
    have hagrees := agrees_unify_self Bindings.isGround_empty rule.head
    have hframe := Frame.enter?_eq_some_iff.2 ⟨hagrees, rfl⟩
    intro hnil
    have hnone := List.filterMap_eq_nil_iff.1 hnil rule (List.mem_reverse.2 hrule)
    simp [Branch.ofQuery, hframe] at hnone
  obtain ⟨b, rest, heq⟩ := List.exists_cons_of_ne_nil hne
  obtain ⟨fact, values, rfl⟩ := hfacts b (by simp [heq])
  rw [heq]
  exact searchFor_fact

/-- The first step opens the branches of the clause and, below them, those of the facts. -/
theorem searchFor_ofQuery {n : Nat} {query : Term} {answer : Bool} :
    searchFor ⟨.ofList rules, some clause, limit⟩ n [.ofQuery query] = some answer ↔
      ∃ m, m + 1 = n ∧ searchFor ⟨.ofList rules, some clause, limit⟩ m
        (openedFor [clause] query ++ openedFor rules query) = some answer := by
  cases n with
  | zero => simp [searchFor]
  | succ n =>
      rw [searchFor, Branch.ofQuery, advance_ofList, opened_append]
      simp [openedFor, Branch.ofQuery]

/-- Whatever is answered for a query that is a fact is yes, and it is answered once the clause has been
followed to a proof or to its end. -/
theorem prove_fact_eq_ok_iff (hrules : ∀ rule ∈ rules, rule.body = []) {query : Term}
    (hquery : ∃ rule ∈ rules, rule.head = query) {answer : Bool} :
    prove ⟨.ofList rules, some clause, limit⟩ query = .ok answer ↔
      answer = true ∧ ∃ n, LimitLE (some (n + 1)) limit ∧
        (searchFor ⟨.ofList rules, some clause, none⟩ n (openedFor [clause] query) = some true ∨
          ∃ k, k + 2 = n ∧ searchFor ⟨.ofList rules, some clause, none⟩ k
            (openedFor [clause] query) = some false) := by
  rw [prove_eq_ok_iff]
  constructor
  · rintro ⟨_, hle, hfound⟩
    obtain ⟨n, rfl, hn⟩ := searchFor_ofQuery.1 hfound
    rcases searchFor_append.1 hn with ⟨htrue, rfl⟩ | ⟨k, m, rfl, hk, hm⟩
    · exact ⟨rfl, n, hle, .inl htrue⟩
    · obtain ⟨rfl, hm⟩ := (searchFor_openedFor hrules hquery).1 hm
      exact ⟨rfl, k + m, hle, .inr ⟨k + m - 2, by omega, searchFor_mono (by omega) hk⟩⟩
  · rintro ⟨rfl, n, hle, h⟩
    refine ⟨n + 1, hle, searchFor_ofQuery.2 ⟨n, rfl, searchFor_append.2 ?_⟩⟩
    rcases h with htrue | ⟨k, hk, hfalse⟩
    · exact .inl ⟨htrue, rfl⟩
    · exact .inr ⟨k, 2, hk, hfalse, (searchFor_openedFor hrules hquery).2 ⟨rfl, Nat.le_refl 2⟩⟩

/-- **Facts wait for the clause.**  A query that is a fact is never denied.  It is proved under a limit
if and only if the limit allows for the first step and, after it, either for a proof that is found
below the clause, or for the end of all that lies below the clause and two steps more.  So three steps
are needed and enough if the clause cannot be entered for the query.  Without a limit, the query is
proved if the clause does not call itself; and it is proved under no limit and never if the clause can
be entered for it and calls itself first. -/
theorem prove_of_fact (rules : List Rule) (clause : Rule) (query : Term)
    (hrules : ∀ rule ∈ rules, rule.body = []) (hquery : ∃ rule ∈ rules, rule.head = query) :
    (∀ limit, prove ⟨.ofList rules, some clause, limit⟩ query ≠ .ok false) ∧
    (∀ limit, prove ⟨.ofList rules, some clause, limit⟩ query = .ok true ↔
      ∃ n, LimitLE (some (n + 1)) limit ∧
        (searchFor ⟨.ofList rules, some clause, none⟩ n (openedFor [clause] query) = some true ∨
          ∃ k, k + 2 = n ∧ searchFor ⟨.ofList rules, some clause, none⟩ k
            (openedFor [clause] query) = some false)) ∧
    (Frame.enter? query .empty clause = none → ∀ limit,
      prove ⟨.ofList rules, some clause, limit⟩ query = .ok true ↔ LimitLE (some 3) limit) ∧
    (clause.CallsOthers → prove ⟨.ofList rules, some clause, none⟩ query = .ok true) ∧
    ((Frame.enter? query .empty clause).isSome → clause.CallsItselfFirst → ∀ limit,
      prove ⟨.ofList rules, some clause, limit⟩ query ≠ .ok true) := by
  have hnever : ∀ limit, prove ⟨.ofList rules, some clause, limit⟩ query ≠ .ok false := by
    intro limit h
    exact absurd ((prove_fact_eq_ok_iff hrules hquery).1 h).1 (by simp)
  have hiff : ∀ limit, prove ⟨.ofList rules, some clause, limit⟩ query = .ok true ↔ _ :=
    fun limit => (prove_fact_eq_ok_iff hrules hquery).trans (and_iff_right rfl)
  refine ⟨hnever, hiff, ?_, ?_, ?_⟩
  · intro hnone limit
    -- nothing lies above the facts, so the search of it ends at once
    have hempty : openedFor [clause] query = [] := by
      simp [openedFor, opened, Branch.ofQuery, hnone]
    rw [hiff, hempty]
    constructor
    · rintro ⟨n, hle, h | ⟨k, rfl, -⟩⟩
      · cases n <;> simp [searchFor] at h
      · exact limitLE_of_le (by omega) hle
    · intro hle
      exact ⟨2, hle, .inr ⟨0, rfl, rfl⟩⟩
  · intro hclause
    obtain ⟨-, answer, -, hprove⟩ :=
      exists_prove_of_isAcyclic rules (some clause) (isAcyclic_of_bare hrules hclause) query
    cases answer with
    | true => exact hprove
    | false => exact absurd hprove (hnever none)
  · intro hentered hclause limit
    obtain ⟨frame, hframe⟩ := Option.isSome_iff_exists.1 hentered
    exact prove_of_callsItselfFirst hclause hframe true

/-! ### A fact that is never reached -/

/-- An edge and a path. -/
def pathFacts : List Rule :=
  [⟨⟨"edge", ["a", "b"]⟩, []⟩, ⟨⟨"reach", ["a", "b"]⟩, []⟩]

/-- A path and an edge make a path: left recursion. -/
def leftClause : Rule :=
  ⟨⟨"reach", ["X", "Z"]⟩, [⟨"reach", ["X", "Y"]⟩, ⟨"edge", ["Y", "Z"]⟩]⟩

/-- Two edges make a path. -/
def stepClause : Rule :=
  ⟨⟨"reach", ["X", "Z"]⟩, [⟨"edge", ["X", "Y"]⟩, ⟨"edge", ["Y", "Z"]⟩]⟩

theorem callsItselfFirst_leftClause : leftClause.CallsItselfFirst :=
  Rule.callsItselfFirst_of_nodup rfl rfl (by decide) (by decide)

/-- The theorem at two facts and a query that is one of them, with the clause that does not call itself
and with the one that does. -/
theorem prove_of_fact_reach :
    (∀ rule ∈ pathFacts, rule.body = []) ∧
    (∃ rule ∈ pathFacts, rule.head = ⟨"reach", ["a", "b"]⟩) ∧
    prove ⟨.ofList pathFacts, some stepClause, none⟩ ⟨"reach", ["a", "b"]⟩ = .ok true ∧
    ∀ limit, prove ⟨.ofList pathFacts, some leftClause, limit⟩ ⟨"reach", ["a", "b"]⟩ ≠ .ok true := by
  have hbare : ∀ rule ∈ pathFacts, rule.body = [] := by decide
  have hfact : ∃ rule ∈ pathFacts, rule.head = ⟨"reach", ["a", "b"]⟩ := by decide
  have hothers : stepClause.CallsOthers := by
    unfold Rule.CallsOthers
    decide
  have hentered : (Frame.enter? ⟨"reach", ["a", "b"]⟩ .empty leftClause).isSome := by decide +kernel
  obtain ⟨-, -, -, hends, -⟩ := prove_of_fact pathFacts stepClause _ hbare hfact
  obtain ⟨-, -, -, -, hnever⟩ := prove_of_fact pathFacts leftClause _ hbare hfact
  exact ⟨hbare, hfact, hends hothers, hnever hentered callsItselfFirst_leftClause⟩

/-- There is no number of steps after which every ground query that is a fact is proved whatever the
clause is: below the left recursive clause the fact is never looked at. -/
theorem not_forall_exists_bound : ¬ ∀ (rules : List Rule) (query : Term),
    (∀ rule ∈ rules, rule.body = []) → query.IsGround → (∃ rule ∈ rules, rule.head = query) →
    ∃ bound, ∀ clause limit, LimitLE (some bound) limit →
      prove ⟨.ofList rules, some clause, limit⟩ query = .ok true := by
  intro h
  have hground : Term.IsGround ⟨"reach", ["a", "b"]⟩ := by
    unfold Term.IsGround
    decide
  obtain ⟨bound, hproved⟩ := h pathFacts ⟨"reach", ["a", "b"]⟩ (by decide) hground (by decide)
  obtain ⟨frame, hframe⟩ : ∃ frame, Frame.enter? ⟨"reach", ["a", "b"]⟩ .empty leftClause =
      some frame := Option.isSome_iff_exists.1 (by decide +kernel)
  exact prove_of_callsItselfFirst callsItselfFirst_leftClause hframe true
    (hproved leftClause none trivial)

end Session

end ClauseForest
