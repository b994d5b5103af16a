/-
**The most specific leaf that applies**

A tree is made from leaves in any order, and an example gets the value of the first one that applies
once they are sorted.  Said without sorting: of the leaves that apply, the one with the most tests
gives the value, and the earliest among those with equally many.  A leaf is looked at only after all
that are tried before it turned out not to apply, so a proof that fails matters only at such a leaf.

Main definitions:

* `LearnedTree.Holds` — a leaf is unconditional, or its clause proves the example;
* `LearnedTree.TriedBefore` — one leaf has more tests than another, or as many and an earlier place;
* `LearnedTree.Consulted` — all leaves that are tried before a leaf do not apply;
* `LearnedTree.MostSpecific` — the leaf that gives the value.

Main results:

* `LearnedTree.exists_of_find?_ofLeaves` — which leaf is the first one with a property;
* `LearnedTree.valueOf_mostSpecific` — **the value is that of the most specific leaf that applies**.
-/

import ClauseForest.Proofs.Tree.Answering

set_option relaxedAutoImplicit false
set_option autoImplicit false

namespace ClauseForest.LearnedTree

/-! ### Leaves that apply -/

section

variable (facts : RuleBase) (query : Term) (limit : Option Nat)

/-- A leaf applies to an example: it is unconditional, or its clause proves the example. -/
def Holds (leaf : Leaf) : Prop :=
  leaf.rule.body = [] ∨ Session.prove ⟨facts, some leaf.rule, limit⟩ query = .ok true

/-- A leaf does not apply to an example: its clause is found not to prove it. -/
def Fails (leaf : Leaf) : Prop :=
  leaf.rule.body ≠ [] ∧ Session.prove ⟨facts, some leaf.rule, limit⟩ query = .ok false

/-- The proof for a leaf gives no answer. -/
def Errs (leaf : Leaf) : Prop :=
  leaf.rule.body ≠ [] ∧
    ∃ e, Session.prove ⟨facts, some leaf.rule, limit⟩ query = .error e

end

section

variable {facts : RuleBase} {query : Term} {limit : Option Nat} {leaf : Leaf} {leaves : List Leaf}

theorem applies_eq_true_iff :
    applies facts query limit leaf = .ok true ↔ Holds facts query limit leaf := by
  unfold applies Holds Leaf.isUnconditional Rule.isFact
  cases leaf.rule.body <;> simp

theorem applies_eq_false_iff :
    applies facts query limit leaf = .ok false ↔ Fails facts query limit leaf := by
  unfold applies Fails Leaf.isUnconditional Rule.isFact
  cases leaf.rule.body <;> simp

theorem exists_applies_iff :
    (∃ answer, applies facts query limit leaf = .ok answer) ↔ ¬Errs facts query limit leaf := by
  unfold applies Errs Leaf.isUnconditional Rule.isFact
  cases leaf.rule.body with
  | nil => simp
  | cons test rest => cases Session.prove ⟨facts, some leaf.rule, limit⟩ query <;> simp

instance : Decidable (Fails facts query limit leaf) :=
  inferInstanceAs (Decidable (_ ∧ _))

instance : Decidable (Errs facts query limit leaf) :=
  decidable_of_iff (¬(applies facts query limit leaf).toBool) <| by
    rw [← not_iff_comm, ← exists_applies_iff]
    cases applies facts query limit leaf <;> simp [Except.toBool]

theorem settles_eq_false_iff :
    settles facts query limit leaf = false ↔ Fails facts query limit leaf := by
  rw [← applies_eq_false_iff, ← toOption_eq_some_iff]
  simp [settles]

end

/-! ### Places -/

variable {leaves : List Leaf}

/-- The leaf at one place is tried before that at another: it has more tests, or as many and comes
earlier. -/
def TriedBefore (leaves : List Leaf) (i j : Fin leaves.length) : Prop :=
  leaves[j].specificity < leaves[i].specificity ∨
    leaves[j].specificity = leaves[i].specificity ∧ i < j

theorem TriedBefore.irrefl (i : Fin leaves.length) : ¬TriedBefore leaves i i := by
  simp [TriedBefore]

theorem TriedBefore.asymm {i j : Fin leaves.length} (h : TriedBefore leaves i j) :
    ¬TriedBefore leaves j i := by
  unfold TriedBefore at *
  omega

/-- The first leaf with a property that is tried is the most specific one, the earliest among
equals. -/
theorem exists_of_find?_ofLeaves {p : Leaf → Bool} {leaf : Leaf}
    (h : (ofLeaves leaves).leaves.find? p = some leaf) :
    ∃ i : Fin leaves.length, leaves[i] = leaf ∧
      ∀ j : Fin leaves.length, p leaves[j] = true → j = i ∨ TriedBefore leaves i j := by
  obtain ⟨-, before, after, rfl, hbefore, hafter⟩ := find?_ofLeaves_eq_some_iff.1 h
  have hlength : before.length < (before ++ leaf :: after).length := by simp
  have hplace : (before ++ leaf :: after)[before.length] = leaf := by simp
  refine ⟨⟨before.length, hlength⟩, hplace, fun ⟨j, hj⟩ hp => ?_⟩
  simp only [TriedBefore, Fin.getElem_fin, hplace, Fin.mk.injEq, Fin.mk_lt_mk] at hp ⊢
  rcases Nat.lt_trichotomy j before.length with hlt | heq | hgt
  · rw [List.getElem_append_left hlt] at hp ⊢
    have hfewer := hbefore _ (List.getElem_mem hlt) hp
    omega
  · exact .inl heq
  · obtain ⟨k, rfl⟩ : ∃ k, j = before.length + (k + 1) := ⟨j - before.length - 1, by omega⟩
    have hk : k < after.length := by
      simp only [List.length_append, List.length_cons] at hj
      omega
    have hother : (before ++ leaf :: after)[before.length + (k + 1)] = after[k] := by
      simp
    rw [hother] at hp ⊢
    have hfewer := hafter _ (List.getElem_mem hk) hp
    omega

/-! ### Values -/

section

variable (facts : RuleBase) (query : Term) (limit : Option Nat) (leaves : List Leaf)

/-- The leaf at a place is looked at: none that is tried before it applies. -/
def Consulted (i : Fin leaves.length) : Prop :=
  ∀ j, TriedBefore leaves j i → Fails facts query limit leaves[j]

/-- The leaf at a place applies, and is tried before every other leaf that applies. -/
def MostSpecific (i : Fin leaves.length) : Prop :=
  Holds facts query limit leaves[i] ∧
    ∀ j, Holds facts query limit leaves[j] → j = i ∨ TriedBefore leaves i j

end

section

variable {facts : RuleBase} {query : Term} {limit : Option Nat} {leaves : List Leaf}

instance {i : Fin leaves.length} : Decidable (Consulted facts query limit leaves i) :=
  inferInstanceAs (Decidable (∀ _, (_ ∨ _) → _))

/-- Only one leaf is the most specific one. -/
theorem MostSpecific.unique {i j : Fin leaves.length} (hi : MostSpecific facts query limit leaves i)
    (hj : MostSpecific facts query limit leaves j) : i = j := by
  rcases hi.2 j hj.1 with rfl | hij
  · rfl
  · rcases hj.2 i hi.1 with rfl | hji
    · rfl
    · exact absurd hji hij.asymm

theorem Holds.settles {leaf : Leaf} (h : Holds facts query limit leaf) :
    settles facts query limit leaf = true := by
  simp [LearnedTree.settles, applies_eq_true_iff.2 h, Except.toOption]

/-- The first leaf of a sorted tree that does not simply fail is looked at. -/
theorem exists_consulted {leaf : Leaf}
    (h : (ofLeaves leaves).leaves.find? (settles facts query limit) = some leaf) :
    ∃ i : Fin leaves.length, leaves[i] = leaf ∧ Consulted facts query limit leaves i ∧
      ∀ j, Holds facts query limit leaves[j] → j = i ∨ TriedBefore leaves i j := by
  obtain ⟨i, hi, hfirst⟩ := exists_of_find?_ofLeaves h
  refine ⟨i, hi, fun j hj => ?_, fun j hj => hfirst j hj.settles⟩
  refine settles_eq_false_iff.1 (Bool.eq_false_iff.2 fun hsettles => ?_)
  rcases hfirst j hsettles with rfl | hij
  · exact hj.irrefl
  · exact hij.asymm hj

end

/-- The value of an example is that of the most specific leaf that applies to it, the earliest among
equals, unless the proof for a leaf that is looked at gives no answer.  Sorting keeps all leaves. -/
theorem valueOf_mostSpecific (leaves : List Leaf) (facts : RuleBase) (query : Term)
    (limit : Option Nat)
    (h : ∀ i, Consulted facts query limit leaves i → ¬Errs facts query limit leaves[i]) :
    (ofLeaves leaves).leaves.Perm leaves ∧
      ∃ value, (ofLeaves leaves).valueOf facts query limit = .ok value ∧
        (∀ v, value = some v ↔ ∃ i, MostSpecific facts query limit leaves i ∧ leaves[i].value = v) ∧
        (value = none ↔ ∀ i : Fin leaves.length, ¬Holds facts query limit leaves[i]) := by
  refine ⟨perm_ofLeaves leaves, ?_⟩
  rw [valueOf, firstValue_eq_find?]
  cases hfind : (ofLeaves leaves).leaves.find? (settles facts query limit) with
  | none =>
      have hnone : ∀ i : Fin leaves.length, ¬Holds facts query limit leaves[i] := fun i hi =>
        List.find?_eq_none.1 hfind _ (mem_ofLeaves.2 (List.getElem_mem i.2)) hi.settles
      refine ⟨none, rfl, fun v => ?_, by simpa using hnone⟩
      simp only [reduceCtorEq, false_iff]
      rintro ⟨i, hi, -⟩
      exact hnone i hi.1
  | some leaf =>
      obtain ⟨i, rfl, hconsulted, hfirst⟩ := exists_consulted hfind
      have hholds : Holds facts query limit leaves[i] := by
        obtain ⟨answer, hanswer⟩ := exists_applies_iff.2 (h i hconsulted)
        cases answer with
        | true => exact applies_eq_true_iff.1 hanswer
        | false =>
            have hsettles := List.find?_some hfind
            rw [settles_eq_false_iff.2 (applies_eq_false_iff.1 hanswer)] at hsettles
            exact absurd hsettles (by decide)
      have hmost : MostSpecific facts query limit leaves i := ⟨hholds, hfirst⟩
      have hvalue : (fun _ => some leaves[i].value) <$> applies facts query limit leaves[i] =
          .ok (some leaves[i].value) := by
        rw [applies_eq_true_iff.2 hholds]
        rfl
      refine ⟨some leaves[i].value, hvalue, fun v => ?_, ?_⟩
      · constructor
        · intro hv
          exact ⟨i, hmost, Option.some.inj hv⟩
        · rintro ⟨j, hj, rfl⟩
          rw [hj.unique hmost]
      · simp only [reduceCtorEq, false_iff, not_forall, not_not]
        exact ⟨i, hholds⟩

/-- Two leaves with one test hold of `ann`; the proof for the last leaf does not end. -/
def cancerLeaves : List Leaf :=
  [⟨.fact ⟨"cancer", ["A"]⟩, 1⟩,
    ⟨⟨⟨"cancer", ["A"]⟩, [⟨"smokes", ["A"]⟩, ⟨"old", ["A"]⟩]⟩, 2⟩,
    ⟨⟨⟨"cancer", ["A"]⟩, [⟨"smokes", ["A"]⟩]⟩, 3⟩,
    ⟨⟨⟨"cancer", ["A"]⟩, [⟨"friends", ["A", "B"]⟩]⟩, 4⟩,
    ⟨⟨⟨"cancer", ["A"]⟩, [⟨"cancer", ["A"]⟩]⟩, 5⟩]

/-- What is known of `ann`. -/
def cancerFacts : RuleBase := .ofList [.fact ⟨"smokes", ["ann"]⟩, .fact ⟨"friends", ["ann", "bob"]⟩]

theorem valueOf_mostSpecific_cancerLeaves :
    (∀ i, Consulted cancerFacts ⟨"cancer", ["ann"]⟩ (some 9) cancerLeaves i →
      ¬Errs cancerFacts ⟨"cancer", ["ann"]⟩ (some 9) cancerLeaves[i]) ∧
    (ofLeaves cancerLeaves).leaves.Perm cancerLeaves ∧
      ∃ value, (ofLeaves cancerLeaves).valueOf cancerFacts ⟨"cancer", ["ann"]⟩ (some 9) =
          .ok value ∧
        (∀ v, value = some v ↔
          ∃ i, MostSpecific cancerFacts ⟨"cancer", ["ann"]⟩ (some 9) cancerLeaves i ∧
            cancerLeaves[i].value = v) ∧
        (value = none ↔ ∀ i : Fin cancerLeaves.length,
          ¬Holds cancerFacts ⟨"cancer", ["ann"]⟩ (some 9) cancerLeaves[i]) := by
  have hconsulted : ∀ i, Consulted cancerFacts ⟨"cancer", ["ann"]⟩ (some 9) cancerLeaves i →
      ¬Errs cancerFacts ⟨"cancer", ["ann"]⟩ (some 9) cancerLeaves[i] := by decide +kernel
  exact ⟨hconsulted, valueOf_mostSpecific cancerLeaves cancerFacts ⟨"cancer", ["ann"]⟩ (some 9)
    hconsulted⟩

end ClauseForest.LearnedTree
