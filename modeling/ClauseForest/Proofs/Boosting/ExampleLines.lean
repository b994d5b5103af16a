/-
**Examples with values**

A line of a regression problem holds an example and its value.  The example ends at the first blank of the
line, and it is taken in if it has the predicate of the target, that is if the target stands before its
first opening parenthesis.  Nothing else is asked of it, unlike the examples of a classification problem,
which must be terms.  So a text without a closing parenthesis, or with several opening ones, becomes an
example, and is found malformed only when it is looked at by an ensemble.

Main definitions:

* `Term.IsClosed` — a text with one opening parenthesis that ends with a closing one;
* `Dataset.Lists` — a line gives a value to an example of the target.

Main results:

* `Term.exists_parse_iff_isClosed` — the closed texts are the terms;
* `Dataset.exists_lines_of_readTest` — the examples are those that are listed;
* `Dataset.isClosed_iff_onlyRunsOut_of_readTest` — **updates and predictions meet no malformed text
  exactly if all examples are closed**.
-/

import ClauseForest.Proofs.Boosting.Validation

set_option relaxedAutoImplicit false
set_option autoImplicit false

namespace ClauseForest

/-! ### Closed texts -/

namespace Term

variable {text : String} {t : Term}

/-- A text with one opening parenthesis that ends with a closing one. -/
def IsClosed (text : String) : Prop :=
  text.toList.getLast? = some ')' ∧ text.toList.count '(' = 1

/-- The closed texts are those that are read as terms. -/
theorem exists_parse_iff_isClosed : (∃ t, parse text = .ok t) ↔ IsClosed text := by
  constructor
  · rintro ⟨t, ht⟩
    obtain ⟨args, hname, hargs, htext, -⟩ := parse_eq_ok_iff.1 ht
    refine ⟨List.getLast?_eq_some_iff.2 ⟨_, htext⟩, ?_⟩
    simp [htext, List.count_eq_zero.2 hname, List.count_eq_zero.2 hargs]
  · rintro ⟨hlast, hcount⟩
    obtain ⟨inner, htext⟩ := List.getLast?_eq_some_iff.1 hlast
    have hinner : inner.count '(' = 1 := by simpa [htext] using hcount
    obtain ⟨name, args, rfl, hname⟩ :=
      List.eq_append_cons_of_mem (List.count_pos_iff.1 (by omega : 0 < inner.count '('))
    -- the only opening parenthesis is the first one
    rw [List.count_append, List.count_cons_self, List.count_eq_zero.2 hname] at hinner
    have hargs : '(' ∉ args := List.count_eq_zero.1 (by omega)
    exact ⟨⟨String.ofList name, readArgs args⟩,
      parse_eq_ok_iff.2 ⟨args, by simpa using hname, hargs, by simp [htext], rfl⟩⟩

/-- The predicate of a term stands before the first opening parenthesis of its text. -/
theorem predicate_of_parse (h : parse text = .ok t) :
    t.predicate = Dataset.predicateOf text.toList := by
  obtain ⟨args, hname, -, htext, -⟩ := parse_eq_ok_iff.1 h
  have hbefore : ∀ c ∈ t.predicate.toList, (decide (c ≠ '(')) = true := fun c hc =>
    decide_eq_true fun heq => hname (heq ▸ hc)
  unfold Dataset.predicateOf
  rw [htext, List.append_assoc, List.takeWhile_append_of_pos hbefore]
  simp

end Term

namespace Dataset

variable {d d' : Dataset} {files : FileTree} {dir target text : String} {options : DataOptions}

/-! ### Lines -/

/-- A line gives a value to an example of the target. -/
def Lists (target line text : String) : Prop :=
  ∃ value, readExample? line = some (text.toList, value) ∧ predicateOf text.toList = target

/-- A line adds the example that it lists. -/
theorem mem_estimates_of_addExample {line : String} (h : d.addExample target line = .ok d') :
    text ∈ d'.estimates.keys ↔ text ∈ d.estimates.keys ∨ Lists target line text := by
  unfold addExample at h
  unfold Lists
  cases hread : readExample? line with
  | none => simp [hread] at h
  | some entry =>
      obtain ⟨key, value⟩ := entry
      rw [hread] at h
      dsimp only at h
      by_cases htarget : predicateOf key = target
      · rw [if_pos htarget] at h
        cases h
        rw [ValueTable.mem_keys_put]
        refine or_congr_right ⟨?_, ?_⟩
        · rintro rfl
          exact ⟨value, by simp, by simpa using htarget⟩
        · rintro ⟨value', heq, -⟩
          cases heq
          simp
      · rw [if_neg htarget] at h
        cases h
        -- the example of another predicate is passed over
        refine ⟨.inl, fun h => h.resolve_right ?_⟩
        rintro ⟨value', heq, hother⟩
        cases heq
        exact htarget hother

/-- Lines that all hold examples add those that they list. -/
theorem mem_estimates_of_addExamples {lines : List String}
    (h : d.addExamples target lines = (d', none)) :
    text ∈ d'.estimates.keys ↔ text ∈ d.estimates.keys ∨ ∃ line ∈ lines, Lists target line text := by
  induction lines generalizing d with
  | nil =>
      cases h
      simp
  | cons line lines ih =>
      rw [addExamples] at h
      cases hadd : d.addExample target line with
      | error e => simp [hadd] at h
      | ok between =>
          rw [hadd] at h
          rw [ih h, mem_estimates_of_addExample hadd, or_assoc]
          simp

/-! ### Regression problems -/

/-- What is read as the test data of a regression problem: facts, the examples that the lines list, and
no advice. -/
theorem exists_lines_of_readTest (hoptions : options.regression = true)
    (h : readTest files dir target options = .ok d) : ∃ lines,
      readLines files dir "examples.txt" = .ok lines ∧
        (∀ text, text ∈ d.examples ↔ ∃ line ∈ lines, Lists target line text) ∧
        (∃ rules, d.facts.mapM Rule.parse = .ok rules) ∧ d.advice = [] := by
  obtain ⟨facts, -, h⟩ := bind_eq_ok_iff.1 h
  obtain ⟨rules, hrules, h⟩ := bind_eq_ok_iff.1 h
  rw [if_pos hoptions] at h
  obtain ⟨lines, hlines, h⟩ := bind_eq_ok_iff.1 h
  have hadd := orFault_eq_ok_iff.1 h
  have hsame := sameProblem_addExamples ((empty options).setFacts facts) target lines
  rw [hadd] at hsame
  have hregression : d.isRegression = true :=
    (congrArg DataOptions.regression hsame.options).trans hoptions
  refine ⟨lines, hlines, fun text => ?_, ⟨rules, ?_⟩, hsame.advice⟩
  · rw [examples, if_pos hregression, mem_estimates_of_addExamples hadd]
    exact or_iff_right nofun
  · rw [hsame.facts]
    exact mapError_eq_ok_iff.1 hrules

/-! ### Updates and predictions -/

/-- An ensemble forms the sum of an example only if it is closed. -/
theorem isClosed_of_sum {e : Ensemble} {sum : Float} (h : e.sum text = .ok sum) :
    Term.IsClosed text := by
  obtain ⟨query, hquery, -⟩ := bind_eq_ok_iff.1 h
  exact Term.exists_parse_iff_isClosed.1 ⟨query, ProofError.ofSyntax_eq_ok_iff.1 hquery⟩

/-- Gradients are updated only if all examples are closed. -/
theorem isClosed_of_updateGradients {trees : List LearnedTree} {loss : Loss} {limit : Option Nat}
    (h : d.updateGradients trees loss limit = .ok d') : ∀ text ∈ d.examples, Term.IsClosed text := by
  intro text htext
  obtain ⟨e, -, h⟩ := bind_eq_ok_iff.1 h
  obtain ⟨updates, hupdates, -⟩ := bind_eq_ok_iff.1 h
  obtain ⟨update, -, hupdate⟩ := exists_mem_of_mapM hupdates htext
  obtain ⟨gradient, hgradient, -⟩ := bind_eq_ok_iff.1 hupdate
  obtain ⟨sum, hsum, -⟩ := bind_eq_ok_iff.1 hgradient
  exact isClosed_of_sum hsum

/-- Predictions are made only if all examples are closed. -/
theorem isClosed_of_infer {trees : List LearnedTree} {limit : Option Nat}
    {out : List (String × Float) × Dataset} (h : d.infer trees limit = .ok out) :
    ∀ text ∈ d.examples, Term.IsClosed text := by
  intro text htext
  obtain ⟨predicted, hpredicted, -⟩ := bind_eq_ok_iff.1 h
  obtain ⟨e, -, hpredicted⟩ := bind_eq_ok_iff.1 hpredicted
  obtain ⟨prediction, -, hprediction⟩ := exists_mem_of_mapM hpredicted htext
  obtain ⟨value, hvalue, -⟩ := bind_eq_ok_iff.1 hprediction
  obtain ⟨sum, hsum, -⟩ := bind_eq_ok_iff.1 hvalue
  exact isClosed_of_sum hsum

/-- Without trees nothing is proved, so that predictions fail only at an example that is malformed. -/
theorem failsOnly_infer_nil {base : RuleBase} (hbase : RuleBase.parse d.facts = .ok base)
    (limit : Option Nat) : FailsOnly ProofError.IsMalformed (d.infer [] limit) :=
  failsOnly_infer (failsOnly_ofSyntax ⟨base, hbase⟩) fun _ _ text _ =>
    Ensemble.failsOnly_sum (failsOnly_isMalformed_ofSyntax (Term.parse text)) nofun

/-- **What becomes of the examples of a regression problem.**  The examples that are taken in are those
that the lines list: the texts in front of the first blanks in which the target stands before the first
opening parenthesis.  Such a text is a term, and then one of the target, exactly if it is closed.
Updates of the gradients and predictions, whatever the trees, the loss and the limit are, fail only where
a proof runs out of steps if all examples are closed, and only then; and none of them succeeds if an
example is not closed. -/
theorem isClosed_iff_onlyRunsOut_of_readTest (files : FileTree) (dir target : String)
    (options : DataOptions) (hoptions : options.regression = true) (d : Dataset)
    (h : readTest files dir target options = .ok d) :
    (∃ lines, readLines files dir "examples.txt" = .ok lines ∧
      ∀ text, text ∈ d.examples ↔ ∃ line ∈ lines, Lists target line text) ∧
    (∀ text ∈ d.examples, (∀ query, Term.parse text = .ok query → query.predicate = target) ∧
      ((∃ query, Term.parse text = .ok query) ↔ Term.IsClosed text)) ∧
    ((∀ text ∈ d.examples, Term.IsClosed text) ↔ ∀ trees limit,
      (∀ loss, OnlyRunsOut limit (d.updateGradients trees loss limit)) ∧
        OnlyRunsOut limit (d.infer trees limit)) ∧
    ∀ trees limit, ((∃ loss d', d.updateGradients trees loss limit = .ok d') ∨
      ∃ out, d.infer trees limit = .ok out) → ∀ text ∈ d.examples, Term.IsClosed text := by
  obtain ⟨lines, hlines, hlists, ⟨rules, hrules⟩, hadvice⟩ := exists_lines_of_readTest hoptions h
  refine ⟨⟨lines, hlines, hlists⟩, fun text htext => ⟨fun query hquery => ?_, ?_⟩, ⟨?_, ?_⟩, ?_⟩
  · obtain ⟨line, -, value, -, htarget⟩ := (hlists text).1 htext
    exact (Term.predicate_of_parse hquery).trans htarget
  · exact Term.exists_parse_iff_isClosed
  · intro hclosed trees limit
    have hreadable : d.Readable :=
      ⟨exists_mapM_iff.1 ⟨rules, hrules⟩,
        fun text htext => Term.exists_parse_iff_isClosed.2 (hclosed text htext), by simp [hadvice]⟩
    exact ⟨fun loss => hreadable.onlyRunsOut_updateGradients trees loss limit,
      hreadable.onlyRunsOut_infer trees limit⟩
  · intro hruns
    cases hinfer : d.infer [] none with
    | ok out => exact isClosed_of_infer hinfer
    | error e =>
        -- without trees no proof can run out of steps
        obtain ⟨fault, rfl⟩ := failsOnly_infer_nil (map_eq_ok_iff.2 ⟨rules, hrules, rfl⟩) none e hinfer
        cases (hruns [] none).2 _ hinfer
  · rintro trees limit (⟨loss, d', hupdate⟩ | ⟨out, hinfer⟩)
    · exact isClosed_of_updateGradients hupdate
    · exact isClosed_of_infer hinfer

/-- The files of a regression problem with one line. -/
def priceFiles (line : String) : FileTree := .directory [("data", .directory
  [("facts.txt", .file "".toUTF8), ("examples.txt", .file line.toUTF8)])]

/-- The theorem for a line that is as it should be. -/
theorem isClosed_iff_onlyRunsOut_of_readTest_price : ∃ d,
    readTest (priceFiles "price(h1) 9.0") "data" "price" ⟨true, false⟩ = .ok d ∧
      d.examples = ["price(h1)"] ∧ ∀ trees limit,
        (∀ loss, OnlyRunsOut limit (d.updateGradients trees loss limit)) ∧
          OnlyRunsOut limit (d.infer trees limit) := by
  have hread : (readTest (priceFiles "price(h1) 9.0") "data" "price" ⟨true, false⟩).toOption.map
      examples = some ["price(h1)"] := by decide +kernel
  obtain ⟨d, hd, hexamples⟩ := Option.map_eq_some_iff.1 hread
  rw [toOption_eq_some_iff] at hd
  obtain ⟨-, -, hclosed, -⟩ := isClosed_iff_onlyRunsOut_of_readTest (priceFiles "price(h1) 9.0")
    "data" "price" ⟨true, false⟩ rfl d hd
  refine ⟨d, hd, hexamples, hclosed.1 fun text htext => ?_⟩
  rw [hexamples, List.mem_singleton] at htext
  subst htext
  exact ⟨by decide, by decide⟩

/-- Not every example that is taken in is a term: one without a closing parenthesis is none. -/
theorem not_forall_exists_parse_of_readTest :
    ¬ ∀ (files : FileTree) (dir target : String) (options : DataOptions) (d : Dataset),
      options.regression = true → readTest files dir target options = .ok d →
        ∀ text ∈ d.examples, ∃ query, Term.parse text = .ok query ∧ query.predicate = target := by
  intro h
  have hread : (readTest (priceFiles "price(h1 9.0") "data" "price" ⟨true, false⟩).toOption.map
      examples = some ["price(h1"] := by decide +kernel
  obtain ⟨d, hd, hexamples⟩ := Option.map_eq_some_iff.1 hread
  rw [toOption_eq_some_iff] at hd
  obtain ⟨query, hquery, -⟩ := h _ _ _ _ d rfl hd "price(h1" (by simp [hexamples])
  obtain ⟨hlast, -⟩ := Term.exists_parse_iff_isClosed.1 ⟨query, hquery⟩
  exact absurd hlast (by decide)

end Dataset

end ClauseForest
