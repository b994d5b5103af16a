/-
**Keeping the books of examples**

Examples stand in several tables: the positive and the negative ones with their current values, and
those of a regression problem with their current and their true values.  Operations of different kinds
work on the same tables, and one that takes in examples may stop in the middle of its lines.

Still no table loses an example or changes the order of its examples, whatever is done; only taking in
examples adds to it; and the two tables of a regression problem always agree.  A text that is both a
positive and a negative example has one value, which is the one it was given last.

Main definitions:

* `Dataset.GrowsTo` — all tables keep their examples, in order, and may have got new ones behind them.

Main results:

* `Operation.apply_cases` — what an operation does to the examples;
* `Dataset.growsTo_after` — no operation loses an example;
* `Dataset.examples_and_values_after` — **what holds of the examples and their values after every
  history**.
-/

import ClauseForest.Proofs.Boosting.Gradients

set_option relaxedAutoImplicit false
set_option autoImplicit false

namespace ClauseForest

namespace Dataset

variable {d d' d'' : Dataset}

/-! ### Keeping examples -/

/-- All tables keep their examples, in order.  New ones stand behind them. -/
structure GrowsTo (d d' : Dataset) : Prop where
  options : d'.options = d.options
  positives : d.positives.keys <+: d'.positives.keys
  negatives : d.negatives.keys <+: d'.negatives.keys
  estimates : d.estimates.keys <+: d'.estimates.keys

namespace GrowsTo

theorem refl (d : Dataset) : d.GrowsTo d :=
  ⟨rfl, List.prefix_rfl, List.prefix_rfl, List.prefix_rfl⟩

theorem trans (h : d.GrowsTo d') (h' : d'.GrowsTo d'') : d.GrowsTo d'' where
  options := h'.options.trans h.options
  positives := h.positives.trans h'.positives
  negatives := h.negatives.trans h'.negatives
  estimates := h.estimates.trans h'.estimates

/-- The list of all examples keeps its examples, in order. -/
theorem sublist_examples (h : d.GrowsTo d') : d.examples.Sublist d'.examples := by
  unfold examples isRegression
  rw [h.options]
  split
  · exact h.estimates.sublist
  · exact h.positives.sublist.append h.negatives.sublist

end GrowsTo

/-- Tables that keep just their examples keep them. -/
theorem SameExamples.growsTo (h : d.SameExamples d') : d.GrowsTo d' where
  options := h.options
  positives := h.positives ▸ List.prefix_rfl
  negatives := h.negatives ▸ List.prefix_rfl
  estimates := h.estimates ▸ List.prefix_rfl

/-! ### Taking in examples -/

/-- Labelling texts keeps the examples that have the label. -/
theorem prefix_keys_label (table : ValueTable) (predicate : String) (value : Float)
    (texts : List String) : table.keys <+: (label table predicate value texts).keys := by
  unfold label
  induction texts.filter fun text => predicateOf text.toList = predicate generalizing table with
  | nil => exact List.prefix_rfl
  | cons text found ih => exact (table.prefix_keys_put text value).trans (ih _)

/-! ### Operations -/

namespace Operation

/-- What an operation does to the examples: it keeps them, or it takes in examples of one kind. -/
theorem apply_cases (d : Dataset) (op : Operation) :
    d.SameExamples (op.apply d) ∨
      (∃ target texts positives, op = .addPositives target texts ∧ op.apply d = { d with positives } ∧
        d.positives.keys <+: positives.keys) ∨
      (∃ target texts negatives, op = .addNegatives target texts ∧ op.apply d = { d with negatives } ∧
        d.negatives.keys <+: negatives.keys) ∨
      ∃ target lines estimates trueValues, op = .addExamples target lines ∧
        op.apply d = { d with estimates, trueValues } ∧ d.estimates.keys <+: estimates.keys := by
  by_cases hgives : op.GivesValues
  · obtain ⟨values, hvalues⟩ := exists_setValues_of_givesValues d hgives
    exact .inl (hvalues ▸ d.sameExamples_setValues values)
  · cases op with
    | setFacts facts => exact .inl ⟨rfl, rfl, rfl, rfl, rfl⟩
    | addPositives target texts =>
        exact .inr (.inl ⟨target, texts, _, rfl, rfl, prefix_keys_label _ _ _ _⟩)
    | addNegatives target texts =>
        exact .inr (.inr (.inl ⟨target, texts, _, rfl, rfl, prefix_keys_label _ _ _ _⟩))
    | addExamples target lines =>
        obtain ⟨estimates, trueValues, heq, hprefix, -⟩ := d.exists_addExamples target lines
        exact .inr (.inr (.inr ⟨target, lines, estimates, trueValues, rfl, heq, hprefix⟩))
    | setBackground target background =>
        refine .inl ?_
        unfold apply Dataset.setBackground
        dsimp only
        split <;> exact ⟨rfl, rfl, rfl, rfl, rfl⟩
    | addAdvice advice => exact .inl ⟨rfl, rfl, rfl, rfl, rfl⟩
    | _ => exact absurd trivial hgives

/-- No operation loses an example. -/
theorem growsTo_apply (d : Dataset) (op : Operation) : d.GrowsTo (op.apply d) := by
  rcases op.apply_cases d with hsame | ⟨_, _, _, -, heq, hprefix⟩ | ⟨_, _, _, -, heq, hprefix⟩ |
    ⟨_, _, _, _, -, heq, hprefix⟩
  · exact hsame.growsTo
  · exact heq ▸ ⟨rfl, hprefix, List.prefix_rfl, List.prefix_rfl⟩
  · exact heq ▸ ⟨rfl, List.prefix_rfl, hprefix, List.prefix_rfl⟩
  · exact heq ▸ ⟨rfl, List.prefix_rfl, List.prefix_rfl, hprefix⟩

/-- True values change only when lines with values are read, and labels only when labelled examples are
taken in. -/
theorem eq_of_apply_ne (d : Dataset) (op : Operation) :
    ((op.apply d).trueValues ≠ d.trueValues → ∃ target lines, op = .addExamples target lines) ∧
    ((op.apply d).positives.keys ≠ d.positives.keys →
      ∃ target texts, op = .addPositives target texts) ∧
    ((op.apply d).negatives.keys ≠ d.negatives.keys →
      ∃ target texts, op = .addNegatives target texts) := by
  rcases op.apply_cases d with hsame | ⟨target, texts, _, rfl, heq, -⟩ |
    ⟨target, texts, _, rfl, heq, -⟩ | ⟨target, lines, _, _, rfl, heq, -⟩
  · exact ⟨absurd hsame.trueValues, absurd hsame.positives, absurd hsame.negatives⟩
  · exact heq ▸ ⟨absurd rfl, fun _ => ⟨target, texts, rfl⟩, absurd rfl⟩
  · exact heq ▸ ⟨absurd rfl, absurd rfl, fun _ => ⟨target, texts, rfl⟩⟩
  · exact heq ▸ ⟨fun _ => ⟨target, lines, rfl⟩, absurd rfl, absurd rfl⟩

end Operation

/-! ### Histories -/

/-- No operation of a history loses an example. -/
theorem growsTo_after (options : DataOptions) (history later : List Operation) :
    (after options history).GrowsTo (after options (history ++ later)) := by
  induction later using List.reverseRecOn with
  | nil => exact (List.append_nil history).symm ▸ .refl _
  | append_singleton later op ih =>
      rw [← List.append_assoc, after_concat]
      exact ih.trans (op.growsTo_apply _)

/-- **The books of examples are in order after every history of operations**, those that failed midway
included.  The regression examples are those with a true value, in the same order.  Whatever follows,
no table loses examples or changes their order, so that the list of all examples grows only.  True values
change only when lines with values are read, and labels only when labelled examples are taken in.  Giving a
value to an example, be it positive, negative or both, makes this its value and changes the value of no
other one, and giving one to any other text changes nothing. -/
theorem examples_and_values_after (options : DataOptions) (history : List Operation) :
    (after options history).estimates.keys = (after options history).trueValues.keys ∧
    (∀ later, (after options history).GrowsTo (after options (history ++ later)) ∧
      (after options history).examples.Sublist (after options (history ++ later)).examples) ∧
    (∀ op,
      ((after options (history ++ [op])).trueValues ≠ (after options history).trueValues →
        ∃ target lines, op = .addExamples target lines) ∧
      ((after options (history ++ [op])).positives.keys ≠ (after options history).positives.keys →
        ∃ target texts, op = .addPositives target texts) ∧
      ((after options (history ++ [op])).negatives.keys ≠ (after options history).negatives.keys →
        ∃ target texts, op = .addNegatives target texts)) ∧
    ∀ text value,
      ((after options history).setValue text value).examples = (after options history).examples ∧
      (text ∈ (after options history).examples →
        ((after options history).setValue text value).value text = value) ∧
      (∀ other, other ≠ text →
        ((after options history).setValue text value).value other =
          (after options history).value other) ∧
      (text ∉ (after options history).examples →
        (after options history).setValue text value = after options history) := by
  refine ⟨Reachable.hasTrueValues ⟨options, history, rfl⟩, fun later => ?_, fun op => ?_,
    fun text value => ?_⟩
  · have hgrows := growsTo_after options history later
    exact ⟨hgrows, hgrows.sublist_examples⟩
  · rw [after_concat]
    exact op.eq_of_apply_ne _
  · refine ⟨(sameExamples_setValue _ text value).examples, fun hmem => ?_, fun other hne => ?_,
      fun hmem => setValue_of_not_mem hmem value⟩
    · rw [Dataset.value, value?_setValue_self hmem]
      rfl
    · rw [Dataset.value, value?_setValue_of_ne hne]
      rfl

/-- The theorem for an example that is positive and negative, next to one that is negative; for labelled
examples that are taken in after them, which change the labels of their own kind and no others; and for
lines with values, of which the second holds no example: the first one is kept with its value, also when
the current value changes, and the third one is not looked at. -/
theorem examples_and_values_after_doubled :
    let history := [.addPositives "p" ["p(a)"], .addNegatives "p" ["p(a)", "p(b)"]]
    let d := after .default history
    let more := after .default (history ++ [.addPositives "p" ["p(b)"]])
    let less := after .default (history ++ [.addNegatives "p" ["p(c)"]])
    let valued := after ⟨true, false⟩ [.addExamples "p" ["p(a) 1.5", "p", "p(b) 2.0"]]
    (d.examples = ["p(a)", "p(a)", "p(b)"] ∧ (d.setValue "p(a)" 2.0).value "p(a)" = 2.0 ∧
        (d.setValue "p(a)" 2.0).value "p(b)" = d.value "p(b)" ∧ d.setValue "p(c)" 2.0 = d) ∧
      (more.positives.keys ≠ d.positives.keys ∧ more.negatives.keys = d.negatives.keys ∧
        more.examples = ["p(a)", "p(b)", "p(a)", "p(b)"]) ∧
      (less.negatives.keys ≠ d.negatives.keys ∧ less.positives.keys = d.positives.keys ∧
        less.examples = ["p(a)", "p(a)", "p(b)", "p(c)"]) ∧
      (valued.trueValues ≠ (after ⟨true, false⟩ []).trueValues ∧ valued.examples = ["p(a)"] ∧
        valued.trueValues.keys = ["p(a)"] ∧ valued.trueValue "p(a)" = some 1.5 ∧
        valued.value "p(a)" = 1.5 ∧ (valued.setValue "p(a)" 2.0).value "p(a)" = 2.0 ∧
        (valued.setValue "p(a)" 2.0).trueValue "p(a)" = some 1.5) := by
  intro history d more less valued
  have hexamples : d.examples = ["p(a)", "p(a)", "p(b)"] := by decide +kernel
  obtain ⟨-, -, hops, hvalue⟩ := examples_and_values_after .default history
  obtain ⟨hkeys, -, -, hvalued⟩ := examples_and_values_after ⟨true, false⟩
    [.addExamples "p" ["p(a) 1.5", "p", "p(b) 2.0"]]
  have hvaluedExamples : valued.examples = ["p(a)"] := by decide +kernel
  refine ⟨⟨hexamples, (hvalue "p(a)" 2.0).2.1 ?_, (hvalue "p(a)" 2.0).2.2.1 "p(b)" (by decide),
    (hvalue "p(c)" 2.0).2.2.2 ?_⟩, ⟨by decide +kernel, ?_, by decide +kernel⟩,
    ⟨by decide +kernel, ?_, by decide +kernel⟩, ?_, hvaluedExamples, hkeys.symm.trans hvaluedExamples,
    by decide +kernel, by decide +kernel, (hvalued "p(a)" 2.0).2.1 ?_, by decide +kernel⟩
  · show "p(a)" ∈ d.examples
    simp [hexamples]
  · show "p(c)" ∉ d.examples
    simp [hexamples]
  · -- taking in positive examples is no operation that changes the negative ones
    by_contra hne
    obtain ⟨_, _, h⟩ := (hops (.addPositives "p" ["p(b)"])).2.2 hne
    cases h
  · by_contra hne
    obtain ⟨_, _, h⟩ := (hops (.addNegatives "p" ["p(c)"])).2.1 hne
    cases h
  · exact ne_of_apply_ne ValueTable.keys (by decide +kernel)
  · show "p(a)" ∈ valued.examples
    simp [hvaluedExamples]

end Dataset

end ClauseForest
