/-
**Facts and one clause**

Proofs from facts about constants are shallow.  A literal is settled by a fact at once, and what the
fact hands back depends on the literal and the fact only.  So the body of a clause is worked through
like a join of tables: a fact for the first literal, a fact that fits for the second, and so on.

A join without its last literals has at least as many answers.  The order of the literals matters
only if a literal repeats a variable that has no value when its turn comes, for such a literal is
settled without a look at whether the repetitions get one value.  If no literal repeats a variable
without a value, a join is what it should be: one choice of constants that turns all literals into
facts.

Main definitions:

* `AreFacts` — rules that are facts about constants;
* `Answers`, `Bindings.taking` — a fact settles a literal, and what it hands back;
* `Joins` — facts settle literals one after another;
* `Holds` — a query follows from facts and one clause.

Main results:

* `Session.prove_eq` — **the search decides whether a query follows**, and always ends;
* `Joins.of_append` — leaving out literals at the end keeps the answers;
* `joins_iff` — a join without repetitions is a common instance in the facts;
* `joins_perm` — **a join without repetitions does not depend on the order of its literals**.
-/

import ClauseForest.Proofs.Logic.Matching
import ClauseForest.Proofs.Prover.Dependencies

set_option relaxedAutoImplicit false
set_option autoImplicit false

namespace ClauseForest

/-! ### Facts as answers -/

/-- The rules are facts about constants. -/
def AreFacts (rules : List Rule) : Prop :=
  ∀ rule ∈ rules, rule.body = [] ∧ rule.head.IsGround

instance (rules : List Rule) : Decidable (AreFacts rules) := by
  unfold AreFacts
  infer_instance

/-- A fact settles a literal. -/
def Answers (fact literal : Term) (b : Bindings) : Prop :=
  (unify literal b fact .empty).agrees = true

/-- The bindings after a fact has handed its values back to a literal. -/
def Bindings.taking (b : Bindings) (literal fact : Term) : Bindings :=
  (unify fact .empty literal b).bindings

theorem unifyArgs_of_isGround {args : List String} (h : ∀ arg ∈ args, isVariable arg = false)
    (source : Bindings) (slots : List String) (target : Bindings) :
    unifyArgs source args slots target = unifyArgs .empty args slots target := by
  induction args generalizing slots target with
  | nil => rfl
  | cons arg args ih =>
      cases slots with
      | nil => rfl
      | cons slot slots =>
          have harg := h arg (by simp)
          have hrest := ih fun other hother => h other (List.mem_cons_of_mem _ hother)
          rw [unifyArgs_cons, unifyArgs_cons, source.valueOf_of_constant harg,
            Bindings.empty.valueOf_of_constant harg]
          simp only [hrest]

/-- What a fact hands back does not depend on any bindings of its own. -/
theorem unify_of_isGround {fact : Term} (h : fact.IsGround) (source : Bindings) (literal : Term)
    (b : Bindings) : (unify fact source literal b).bindings = b.taking literal fact := by
  unfold Bindings.taking unify
  rw [unifyArgs_of_isGround h]

theorem Bindings.IsGround.taking {b : Bindings} (hb : b.IsGround) (literal fact : Term) :
    (b.taking literal fact).IsGround := isGround_unify isGround_empty _ _ hb

theorem Bindings.le_taking (b : Bindings) (literal fact : Term) : b ≤ b.taking literal fact :=
  le_unify _ _ _ _

theorem agrees_unifyArgs_iff {slots : List String} (h : ∀ slot ∈ slots, isVariable slot = false)
    (b : Bindings) (args : List String) (target : Bindings) :
    (unifyArgs b args slots target).agrees = true ↔
      ∀ pair ∈ args.zip slots, ∀ value, b.valueOf pair.1 = some value → value = pair.2 := by
  have hslot : ∀ pair ∈ args.zip slots, target.valueOf pair.2 = some pair.2 :=
    fun pair hpair => target.valueOf_of_constant (h _ (List.of_mem_zip hpair).2)
  rw [agrees_unifyArgs_iff_compatible]
  constructor
  · intro hcompatible pair hpair value hvalue
    exact (hcompatible.1 pair hpair value pair.2 hvalue (hslot pair hpair)).symm
  · intro hargs
    refine ⟨fun pair hpair value bound hvalue hbound => ?_, ?_⟩
    · rw [hslot pair hpair] at hbound
      exact (Option.some.inj hbound).symm.trans (hargs pair hpair value hvalue).symm
    · intro pair hpair other hother heq value value' hvalue hvalue'
      rw [hargs pair hpair value hvalue, hargs other hother value' hvalue', heq]

/-- A fact settles a literal unless a value of the literal stands against it. -/
theorem answers_iff {fact : Term} (h : fact.IsGround) (literal : Term) (b : Bindings) :
    Answers fact literal b ↔ literal.predicate = fact.predicate ∧ literal.arity = fact.arity ∧
      ∀ pair ∈ literal.args.zip fact.args, ∀ value, b.valueOf pair.1 = some value →
        value = pair.2 := by
  unfold Answers unify
  split
  · rename_i hkey
    rw [agrees_unifyArgs_iff h]
    exact ⟨fun hargs => ⟨hkey.1, hkey.2, hargs⟩, fun hargs => hargs.2.2⟩
  · rename_i hkey
    exact ⟨fun hfalse => absurd hfalse (by simp), fun hargs => absurd ⟨hargs.1, hargs.2.1⟩ hkey⟩

/-! ### Joins -/

/-- Facts settle literals one after another. -/
def Joins (rules : List Rule) : List Term → Bindings → Prop
  | [], _ => True
  | literal :: rest, b =>
    ∃ rule ∈ rules, Answers rule.head literal b ∧ Joins rules rest (b.taking literal rule.head)

section Joins

variable {rules : List Rule}

/-- Literals at the end may be left out. -/
theorem Joins.of_append {body more : List Term} {b : Bindings} (h : Joins rules (body ++ more) b) :
    Joins rules body b := by
  induction body generalizing b with
  | nil => trivial
  | cons literal rest ih =>
      obtain ⟨rule, hrule, hanswers, hrest⟩ := h
      exact ⟨rule, hrule, hanswers, ih hrest⟩

/-! ### Joins without repetitions -/

theorem Term.Distinct.mono {t : Term} {b c : Bindings} (h : t.Distinct b) (hbc : b ≤ c) :
    t.Distinct c := by
  intro var hvar
  refine h var ?_
  cases hb : b.valueOf var with
  | none => rfl
  | some value => exact absurd (hbc var value hb) (by simp [hvar])

/-- A literal that repeats no variable without a value takes over all arguments of a fact. -/
theorem valuesIn_taking {fact literal : Term} (hfact : fact.IsGround) {b : Bindings}
    (hliteral : literal.Distinct b) (h : Answers fact literal b) :
    literal.ValuesIn (b.taking literal fact) fact.args := by
  obtain ⟨hpredicate, harity, hargs⟩ := (answers_iff hfact literal b).1 h
  have hvalues : fact.ValuesIn .empty fact.args :=
    List.map_congr_left fun arg harg => Bindings.valueOf_of_constant _ (hfact arg harg)
  refine valuesIn_unify hpredicate.symm harity.symm hvalues ?_ hliteral
  intro pair hpair value hvalue
  rw [hargs pair hpair value hvalue]
  exact Bindings.valueOf_of_constant _ (hfact _ (List.of_mem_zip hpair).2)

/-- A join without repetitions is a common instance in the facts. -/
theorem joins_iff (hrules : AreFacts rules) {body : List Term} {b : Bindings} (hb : b.IsGround)
    (hbody : ∀ literal ∈ body, literal.Distinct b) :
    Joins rules body b ↔ ∃ θ : Grounding, θ.Respects b ∧
      ∀ literal ∈ body, ∃ rule ∈ rules, θ.term literal = rule.head := by
  induction body generalizing b with
  | nil =>
      refine ⟨fun _ => ⟨b.grounding hb, Bindings.respects_grounding hb, by simp⟩, fun _ => trivial⟩
  | cons literal rest ih =>
      constructor
      · rintro ⟨rule, hrule, hanswers, hrest⟩
        have hground := (hrules rule hrule).2
        have hle := b.le_taking literal rule.head
        obtain ⟨θ, hθ, hinstances⟩ := (ih (hb.taking literal rule.head) fun other hother =>
          (hbody other (List.mem_cons_of_mem _ hother)).mono hle).1 hrest
        refine ⟨θ, hθ.mono hle, ?_⟩
        intro other hother
        rcases List.mem_cons.1 hother with rfl | hother
        · have hvalues := valuesIn_taking hground (hbody other (by simp)) hanswers
          obtain ⟨hpredicate, -, -⟩ := (answers_iff hground other b).1 hanswers
          refine ⟨rule, hrule, ?_⟩
          rw [hθ.term_eq hvalues, hpredicate]
        · exact hinstances other hother
      · rintro ⟨θ, hθ, hinstances⟩
        obtain ⟨rule, hrule, heq⟩ := hinstances literal (by simp)
        have hground := (hrules rule hrule).2
        have hcommon : θ.term literal = θ.term rule.head := by
          rw [heq, θ.term_of_isGround hground]
        have hle := b.le_taking literal rule.head
        have hrespects : θ.Respects (b.taking literal rule.head) :=
          (respects_unify (θ.respects_empty) hθ hcommon.symm).2
        refine ⟨rule, hrule, (respects_unify hθ θ.respects_empty hcommon).1, ?_⟩
        refine (ih (hb.taking literal rule.head) fun other hother =>
          (hbody other (List.mem_cons_of_mem _ hother)).mono hle).2 ⟨θ, hrespects, ?_⟩
        exact fun other hother => hinstances other (List.mem_cons_of_mem _ hother)

/-- A join without repetitions does not depend on the order of its literals. -/
theorem joins_perm (hrules : AreFacts rules) {body other : List Term} (hperm : body.Perm other)
    {b : Bindings} (hb : b.IsGround) (hbody : ∀ literal ∈ body, literal.Distinct b) :
    Joins rules body b ↔ Joins rules other b := by
  have hother : ∀ literal ∈ other, literal.Distinct b :=
    fun literal hliteral => hbody literal (hperm.mem_iff.2 hliteral)
  rw [joins_iff hrules hb hbody, joins_iff hrules hb hother]
  simp only [hperm.mem_iff]

end Joins

/-! ### Queries -/

/-- A query is among the facts, or the clause matches it and facts settle the body of the clause. -/
def Holds (rules : List Rule) (clause : Rule) (query : Term) : Prop :=
  (∃ rule ∈ rules, Answers rule.head query .empty) ∨
    (unify query .empty clause.head .empty).agrees = true ∧
      Joins rules clause.body (unify query .empty clause.head .empty).bindings

namespace Session

variable {s : Session} {rules : List Rule} {clause : Rule}

/-- A fact is finished as soon as it is entered. -/
theorem succeeds_fact_iff {fact : Term} (hfact : fact.IsGround) {head literal : Term}
    {rest : List Term} {source b : Bindings} {callers : List Frame} :
    s.Succeeds ⟨⟨fact, [], source⟩, ⟨head, literal :: rest, b⟩ :: callers⟩ ↔
      s.Succeeds ⟨⟨head, rest, b.taking literal fact⟩, callers⟩ := by
  rw [← unify_of_isGround hfact source]
  constructor
  · intro h
    cases h with
    | resume h => exact h
  · intro h
    exact .resume h

/-- Working through a body that does not call the clause is a join of facts. -/
theorem succeeds_iff_joins (hs : s.Uses (rules ++ [clause])) (hrules : AreFacts rules)
    {head : Term} {callers : List Frame} (hdone : ∀ b, s.Succeeds ⟨⟨head, [], b⟩, callers⟩)
    {body : List Term} (hbody : ∀ literal ∈ body, literal.key ≠ clause.head.key) (b : Bindings) :
    s.Succeeds ⟨⟨head, body, b⟩, callers⟩ ↔ Joins rules body b := by
  induction body generalizing b with
  | nil => exact ⟨fun _ => trivial, fun _ => hdone b⟩
  | cons literal rest ih =>
      have hrest := ih fun other hother => hbody other (List.mem_cons_of_mem _ hother)
      rw [succeeds_cons_iff hs]
      constructor
      · rintro ⟨rule, hmem, hagrees, h⟩
        rcases List.mem_append.1 hmem with hmem | hmem
        · obtain ⟨hfact, hground⟩ := hrules rule hmem
          rw [hfact, succeeds_fact_iff hground] at h
          exact ⟨rule, hmem, hagrees, (hrest _).1 h⟩
        · rw [List.mem_singleton.1 hmem] at hagrees
          exact absurd (key_eq_of_agrees hagrees).symm (hbody literal (by simp))
      · rintro ⟨rule, hmem, hanswers, hjoins⟩
        obtain ⟨hfact, hground⟩ := hrules rule hmem
        refine ⟨rule, List.mem_append_left _ hmem, hanswers, ?_⟩
        rw [hfact, succeeds_fact_iff hground]
        exact (hrest _).2 hjoins

/-- What is finished for the query proves it. -/
theorem succeeds_done (head query : Term) (b c : Bindings) :
    s.Succeeds ⟨⟨head, [], b⟩, [⟨⟨"query", []⟩, [query], c⟩]⟩ := .resume (.proved _ _)

theorem succeeds_ofQuery_iff (hs : s.Uses (rules ++ [clause])) (hrules : AreFacts rules)
    (hclause : ∀ literal ∈ clause.body, literal.key ≠ clause.head.key) (query : Term) :
    s.Succeeds (.ofQuery query) ↔ Holds rules clause query := by
  have hbody := succeeds_iff_joins hs hrules
    (fun b => succeeds_done (s := s) clause.head query b .empty) hclause
  refine (succeeds_cons_iff hs).trans ?_
  constructor
  · rintro ⟨rule, hmem, hagrees, h⟩
    rcases List.mem_append.1 hmem with hmem | hmem
    · exact .inl ⟨rule, hmem, hagrees⟩
    · rw [List.mem_singleton.1 hmem] at hagrees h
      exact .inr ⟨hagrees, (hbody _).1 h⟩
  · rintro (⟨rule, hmem, hanswers⟩ | ⟨hagrees, hjoins⟩)
    · refine ⟨rule, List.mem_append_left _ hmem, hanswers, ?_⟩
      rw [(hrules rule hmem).1]
      exact succeeds_done _ _ _ _
    · exact ⟨clause, by simp, hagrees, (hbody _).2 hjoins⟩

/-- The search decides whether a query follows from facts and a clause that calls facts only. -/
theorem prove_eq (hrules : AreFacts rules)
    (hclause : ∀ literal ∈ clause.body, literal.key ≠ clause.head.key) (query : Term)
    [Decidable (Holds rules clause query)] :
    Session.prove ⟨.ofList rules, some clause, none⟩ query =
      .ok (decide (Holds rules clause query)) := by
  have hs := uses_ofList rules (some clause) none
  have hacyclic := isAcyclic_of_bare (fun rule hrule => (hrules rule hrule).1) hclause
  obtain ⟨-, answer, -, hprove⟩ := exists_prove_of_isAcyclic rules (some clause) hacyclic query
  have hiff := succeeds_ofQuery_iff hs hrules hclause query
  rw [hprove]
  cases answer with
  | true => rw [decide_eq_true (hiff.1 (succeeds_of_prove hprove))]
  | false => rw [decide_eq_false fun h => not_succeeds_of_prove hprove (hiff.2 h)]

end Session

end ClauseForest
