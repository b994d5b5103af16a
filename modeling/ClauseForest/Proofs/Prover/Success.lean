/-
**Success of a search**

The depth first search follows one branch after another, and which one comes next depends on
everything that lies on the stack.  Whether the search succeeds does not: it succeeds only if some
branch *can* be led to a proof, by some choice of a rule for every literal, and it gives up only if
none can.

This turns the search into a relation without a stack.  A branch succeeds when nothing is open any
more; when its innermost rule is finished and the waiting rule, resumed, succeeds; or when some rule
can be entered for its first open literal and the branch that this makes succeeds.

A search has an end if it gets past every branch on its stack, and it gets past a branch if it gets
past those that the branch turns into.

Main definitions:

* `Session.Uses` — the rules that a session proves from;
* `Session.Succeeds` — the branches that can be led to a proof;
* `Session.Ends` — the branches that the search gets past.

Main results:

* `Session.candidates_ofList` — looking rules up by their heads finds all of them, and a clause is
  one rule more;
* `Session.succeeds_cons_iff` — a branch with an open literal succeeds by some rule for the literal;
* `Session.succeeds_of_searchFor`, `Session.not_succeeds_of_searchFor` — **the answers of the search
  are right**: yes means that some branch succeeds, no that none does;
* `Session.ends_of_advance` — the search gets past a branch by getting past what it turns into;
* `Branch.forall_body` — properties of branches are proved literal by literal.
-/

import ClauseForest.Prover.Search

set_option relaxedAutoImplicit false
set_option autoImplicit false

namespace ClauseForest

/-! ### The rules of a session -/

theorem RuleBase.matching_foldl_insert (rules : List Rule) (base : RuleBase) (goal : Term) :
    (rules.foldl insert base).matching goal =
      base.matching goal ++ rules.filter fun rule => rule.head.key = goal.key := by
  induction rules generalizing base with
  | nil => simp
  | cons rule rules ih =>
      rw [List.foldl_cons, ih, matching_insert]
      by_cases h : goal.key = rule.head.key
      · simp [h]
      · simp [h, Ne.symm h]

/-- Looking a rule up by its head finds what looking through all rules finds. -/
theorem RuleBase.matching_ofList (rules : List Rule) (goal : Term) :
    (ofList rules).matching goal = rules.filter fun rule => rule.head.key = goal.key := by
  unfold ofList
  rw [matching_foldl_insert, matching_empty, List.nil_append]

/-- A clause is one rule more, after all others. -/
theorem Session.candidates_ofList (rules : List Rule) (clause : Option Rule) (limit : Option Nat)
    (literal : Term) : Session.candidates ⟨.ofList rules, clause, limit⟩ literal =
      (rules ++ clause.toList).filter fun rule => rule.head.key = literal.key := by
  unfold Session.candidates
  rw [RuleBase.matching_ofList, List.filter_append]
  cases clause with
  | none => rfl
  | some c => by_cases h : c.head.key = literal.key <;> simp [h]

/-- The session proves from the rules of a list. -/
def Session.Uses (s : Session) (program : List Rule) : Prop :=
  ∀ literal rule, rule ∈ s.candidates literal ↔ rule ∈ program ∧ rule.head.key = literal.key

theorem Session.uses_ofList (rules : List Rule) (clause : Option Rule) (limit : Option Nat) :
    Session.Uses ⟨.ofList rules, clause, limit⟩ (rules ++ clause.toList) := by
  intro literal rule
  rw [candidates_ofList, List.mem_filter, decide_eq_true_iff]

/-- Only terms with the same key match. -/
theorem key_eq_of_agrees {term pattern : Term} {source target : Bindings}
    (h : (unify term source pattern target).agrees = true) : pattern.key = term.key := by
  by_cases hkey : term.predicate = pattern.predicate ∧ term.arity = pattern.arity
  · exact Prod.ext hkey.1.symm hkey.2.symm
  · rw [unify_of_mismatch _ _ hkey] at h
    cases h

/-! ### Branches that can be led to a proof -/

/-- What entering a rule makes of the bindings. -/
theorem Frame.enter?_eq_some_iff {literal : Term} {bindings : Bindings} {rule : Rule}
    {frame : Frame} : Frame.enter? literal bindings rule = some frame ↔
      (unify literal bindings rule.head .empty).agrees = true ∧
        frame = ⟨rule.head, rule.body, (unify literal bindings rule.head .empty).bindings⟩ := by
  unfold Frame.enter?
  cases h : (unify literal bindings rule.head .empty).agrees with
  | true => simp [h, eq_comm]
  | false => simp [h]

namespace Session

/-- A branch that can be led to a proof. -/
inductive Succeeds (s : Session) : Branch → Prop
  /-- Nothing is open any more. -/
  | proved (head : Term) (bindings : Bindings) : Succeeds s ⟨⟨head, [], bindings⟩, []⟩
  /-- The innermost rule is finished, and the waiting rule goes on. -/
  | resume {head : Term} {bindings : Bindings} {caller : Frame} {callers : List Frame}
      (h : Succeeds s ⟨caller.resume ⟨head, [], bindings⟩, callers⟩) :
      Succeeds s ⟨⟨head, [], bindings⟩, caller :: callers⟩
  /-- A rule is entered for the first open literal. -/
  | enter {head literal : Term} {rest : List Term} {bindings : Bindings} {callers : List Frame}
      {rule : Rule} {frame : Frame} (hrule : rule ∈ s.candidates literal)
      (hframe : Frame.enter? literal bindings rule = some frame)
      (h : Succeeds s ⟨frame, ⟨head, literal :: rest, bindings⟩ :: callers⟩) :
      Succeeds s ⟨⟨head, literal :: rest, bindings⟩, callers⟩

/-- The branches that come out of entering a rule. -/
theorem mem_advance_iff {s : Session} {head literal : Term} {rest : List Term}
    {bindings : Bindings} {callers : List Frame} {b : Branch} :
    (∃ next, s.advance ⟨⟨head, literal :: rest, bindings⟩, callers⟩ = .branches next ∧ b ∈ next) ↔
      ∃ rule ∈ s.candidates literal, ∃ frame, Frame.enter? literal bindings rule = some frame ∧
        b = ⟨frame, ⟨head, literal :: rest, bindings⟩ :: callers⟩ := by
  constructor
  · rintro ⟨next, hnext, hb⟩
    cases hnext
    obtain ⟨rule, hrule, hmap⟩ := List.mem_filterMap.1 hb
    obtain ⟨frame, hframe, rfl⟩ := Option.map_eq_some_iff.1 hmap
    exact ⟨rule, List.mem_reverse.1 hrule, frame, hframe, rfl⟩
  · rintro ⟨rule, hrule, frame, hframe, rfl⟩
    refine ⟨_, rfl, List.mem_filterMap.2 ⟨rule, List.mem_reverse.2 hrule, ?_⟩⟩
    rw [hframe]
    rfl

theorem Succeeds.of_advance {s : Session} {b next : Branch} {nexts : List Branch}
    (hb : s.advance b = .branches nexts) (hnext : next ∈ nexts) (h : s.Succeeds next) :
    s.Succeeds b := by
  obtain ⟨⟨head, todo, bindings⟩, callers⟩ := b
  cases todo with
  | nil =>
      cases callers with
      | nil => cases hb
      | cons caller callers =>
          cases hb
          rw [List.mem_singleton.1 hnext] at h
          exact .resume h
  | cons literal rest =>
      obtain ⟨rule, hrule, frame, hframe, rfl⟩ := mem_advance_iff.1 ⟨nexts, hb, hnext⟩
      exact .enter hrule hframe h

theorem Succeeds.advance {s : Session} {b : Branch} (h : s.Succeeds b) :
    s.advance b = .proved ∨
      ∃ nexts, s.advance b = .branches nexts ∧ ∃ next ∈ nexts, s.Succeeds next := by
  cases h with
  | proved head bindings => exact .inl rfl
  | resume h => exact .inr ⟨_, rfl, _, List.mem_singleton.2 rfl, h⟩
  | enter hrule hframe h =>
      obtain ⟨nexts, hnexts, hmem⟩ := mem_advance_iff.2 ⟨_, hrule, _, hframe, rfl⟩
      exact .inr ⟨nexts, hnexts, _, hmem, h⟩

theorem succeeds_of_proved {s : Session} {b : Branch} (h : s.advance b = .proved) :
    s.Succeeds b := by
  obtain ⟨⟨head, todo, bindings⟩, callers⟩ := b
  cases todo with
  | nil =>
      cases callers with
      | nil => exact .proved head bindings
      | cons caller callers => cases h
  | cons literal rest => cases h

/-- A branch with an open literal succeeds if some rule can be entered for the literal and this
leads to a proof. -/
theorem succeeds_cons_iff {s : Session} {program : List Rule} (hs : s.Uses program)
    {head literal : Term} {rest : List Term} {b : Bindings} {callers : List Frame} :
    s.Succeeds ⟨⟨head, literal :: rest, b⟩, callers⟩ ↔
      ∃ rule ∈ program, (unify literal b rule.head .empty).agrees = true ∧
        s.Succeeds ⟨⟨rule.head, rule.body, (unify literal b rule.head .empty).bindings⟩,
          ⟨head, literal :: rest, b⟩ :: callers⟩ := by
  constructor
  · intro h
    cases h with
    | @enter _ _ _ _ _ rule frame hrule hframe h =>
        obtain ⟨hagrees, rfl⟩ := Frame.enter?_eq_some_iff.1 hframe
        exact ⟨rule, ((hs literal rule).1 hrule).1, hagrees, h⟩
  · rintro ⟨rule, hrule, hagrees, h⟩
    exact .enter ((hs literal rule).2 ⟨hrule, key_eq_of_agrees hagrees⟩)
      (Frame.enter?_eq_some_iff.2 ⟨hagrees, rfl⟩) h

/-! ### The answers of the search -/

/-- Yes means that some branch succeeds. -/
theorem succeeds_of_searchFor {s : Session} {n : Nat} {stack : List Branch}
    (h : s.searchFor n stack = some true) : ∃ b ∈ stack, s.Succeeds b := by
  induction n generalizing stack with
  | zero => cases stack <;> simp [searchFor] at h
  | succ n ih =>
      cases stack with
      | nil => simp [searchFor] at h
      | cons branch rest =>
          rw [searchFor] at h
          cases hb : s.advance branch with
          | proved => exact ⟨branch, by simp, succeeds_of_proved hb⟩
          | branches next =>
              rw [hb] at h
              obtain ⟨b, hmem, hb'⟩ := ih h
              rcases List.mem_append.1 hmem with hmem | hmem
              · exact ⟨branch, by simp, .of_advance hb hmem hb'⟩
              · exact ⟨b, by simp [hmem], hb'⟩

/-- No means that no branch succeeds. -/
theorem not_succeeds_of_searchFor {s : Session} {n : Nat} {stack : List Branch}
    (h : s.searchFor n stack = some false) : ∀ b ∈ stack, ¬ s.Succeeds b := by
  induction n generalizing stack with
  | zero => cases stack <;> simp [searchFor] at h ⊢
  | succ n ih =>
      cases stack with
      | nil => simp
      | cons branch rest =>
          rw [searchFor] at h
          cases hb : s.advance branch with
          | proved => simp [hb] at h
          | branches next =>
              rw [hb] at h
              have hnone := ih h
              intro b hmem hsucceeds
              rcases List.mem_cons.1 hmem with rfl | hmem
              · rcases hsucceeds.advance with hproved | ⟨nexts, hnexts, b', hb', hsucceeds'⟩
                · rw [hb] at hproved
                  cases hproved
                · rw [hb] at hnexts
                  cases hnexts
                  exact hnone b' (List.mem_append_left _ hb') hsucceeds'
              · exact hnone b (List.mem_append_right _ hmem) hsucceeds

/-- An answer is one of the search with some bound. -/
theorem exists_searchFor_of_prove {s : Session} {query : Term} {answer : Bool}
    (h : s.prove query = .ok answer) : ∃ n, s.searchFor n [.ofQuery query] = some answer := by
  unfold prove at h
  split at h
  · rename_i n _
    split at h
    · rename_i found hfound
      cases h
      exact ⟨n, hfound⟩
    · cases h
  · split at h
    · rename_i found hfound
      cases h
      exact search_eq_some_iff.1 hfound
    · cases h

theorem succeeds_of_prove {s : Session} {query : Term} (h : s.prove query = .ok true) :
    s.Succeeds (.ofQuery query) := by
  obtain ⟨n, hn⟩ := exists_searchFor_of_prove h
  obtain ⟨b, hb, hsucceeds⟩ := succeeds_of_searchFor hn
  rwa [List.mem_singleton.1 hb] at hsucceeds

theorem not_succeeds_of_prove {s : Session} {query : Term} (h : s.prove query = .ok false) :
    ¬ s.Succeeds (.ofQuery query) := by
  obtain ⟨n, hn⟩ := exists_searchFor_of_prove h
  exact not_succeeds_of_searchFor hn _ (List.mem_singleton.2 rfl)

/-! ### Searches that end -/

/-- The search gets past a branch, if it gets to the end of what lies below it. -/
def Ends (s : Session) (b : Branch) : Prop :=
  ∀ rest, (∃ n answer, s.searchFor n rest = some answer) →
    ∃ n answer, s.searchFor n (b :: rest) = some answer

theorem exists_searchFor_append {s : Session} {stack rest : List Branch}
    (h : ∀ b ∈ stack, s.Ends b) (hrest : ∃ n answer, s.searchFor n rest = some answer) :
    ∃ n answer, s.searchFor n (stack ++ rest) = some answer := by
  induction stack with
  | nil => exact hrest
  | cons b stack ih =>
      exact h b (by simp) _ (ih fun b' hb' => h b' (List.mem_cons_of_mem _ hb'))

theorem ends_of_advance {s : Session} {b : Branch}
    (h : ∀ nexts, s.advance b = .branches nexts → ∀ next ∈ nexts, s.Ends next) : s.Ends b := by
  intro rest hrest
  cases hb : s.advance b with
  | proved => exact ⟨1, true, by simp [searchFor, hb]⟩
  | branches nexts =>
      obtain ⟨n, answer, hn⟩ := exists_searchFor_append (h nexts hb) hrest
      exact ⟨n + 1, answer, by simp only [searchFor, hb, hn]⟩

end Session

/-! ### Bodies, literal by literal -/

/-- What holds of a branch with nothing open in its innermost rule, and is passed on from the
literals behind a literal to this literal, holds of the branch with the whole body open. -/
theorem Branch.forall_body {P : Branch → Prop} {Q : Bindings → Prop} {head : Term}
    {callers : List Frame} {body : List Term}
    (hbody : ∀ literal ∈ body, ∀ (rest : List Term) (b : Bindings), Q b →
      (∀ b', Q b' → P ⟨⟨head, rest, b'⟩, callers⟩) → P ⟨⟨head, literal :: rest, b⟩, callers⟩)
    (hdone : ∀ b, Q b → P ⟨⟨head, [], b⟩, callers⟩) :
    ∀ b, Q b → P ⟨⟨head, body, b⟩, callers⟩ := by
  induction body with
  | nil => exact hdone
  | cons literal body ih =>
      intro b hb
      exact hbody literal (by simp) body b hb
        (ih fun other hother => hbody other (List.mem_cons_of_mem _ hother))

end ClauseForest
